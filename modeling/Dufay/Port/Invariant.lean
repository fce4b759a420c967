import Dufay.Port.Heap

/-! # The ports over whole runs

If the handles that are passed live or are rejected, and a port is given
back only when its queue is empty and no other handle names it
(`Careful`), then the memory holds the queues of all ports (`Inv`). If all
messages have the size of a header at least, what is copied out is what
was sent (`Delivered`).
-/

open Lts Memory Tailq Capability Function

namespace Port

universe u

variable {π : Type u} [DecidableEq π]

/-! ### The conditions -/

/-- The handles that are passed are valid, and a port is given back only with
an empty queue and when no other handle names it. -/
def Careful (s : State π) : Action π → Prop
  | .create_obj .. => True
  | .duplicate_obj p handle _ _ => Valid s.cap p handle
  | .destroy_obj p handle _ =>
    Valid s.cap p handle ∧ (s.Returns p handle → read64 s.mem (s.named p handle) = 0 ∧
        ∀ x ∈ s.cap.handles, x ≠ (p, handle.toNat) → (s.cap.info x).binding.obj ≠ s.named p handle)
  | .msg_send p message _ _ => Valid s.cap p (read32 message 0)
  | .msg_recv p port _ => Valid s.cap p port
  | .elsewhere .. => True

instance (s : State π) (a : Action π) : Decidable (Careful s a) := by
  cases a <;> unfold Careful <;> infer_instance

/-- A message has the size of a `struct message_header` at least. -/
def Sized : Action π → Prop
  | .msg_send _ message _ _ => 16 ≤ read64 message 8
  | _ => True

instance (a : Action π) : Decidable (Sized a) := by
  cases a <;> unfold Sized <;> infer_instance

/-! ### Objects -/

/-- All objects are ports. Those that are not allocated are as they were
constructed: their queues are empty and their refcounts are zero. -/
structure ObjectsOk (objects : Objects) (blocks : List Block) (g : Content) : Prop where
  constructor : (objects.classes OBJ_CLASS_PORT).constructor = some port_constructor
  allocated : ∀ o ∈ objects.allocated, o ∈ objects.constructed
  class_ : ∀ o ∈ objects.constructed, (objects.header o).class_ = OBJ_CLASS_PORT
  refcount : ∀ o ∈ objects.constructed, o ∉ objects.allocated → (objects.header o).refcount = 0
  empty : ∀ o, o ∉ objects.allocated → g.queue o = []
  heap : Heap (portSize objects) objects.constructed objects.mem blocks g

namespace ObjectsOk

variable {objects objects' : Objects} {blocks blocks' : List Block} {g g' : Content} {obj : Nat}

section

variable (h : ObjectsOk objects blocks g)

include h

theorem update (hheap : Heap (portSize objects) objects.constructed mem blocks' g')
    (hempty : ∀ o, o ∉ objects.allocated → g'.queue o = []) :
    ObjectsOk { objects with mem := mem } blocks' g' :=
  ⟨h.constructor, h.allocated, h.class_, h.refcount, hempty, hheap⟩

theorem class_of_refcount (ho : o ∈ objects.constructed) :
    (Function.update objects.header obj { objects.header obj with refcount := rc } o).class_ =
      OBJ_CLASS_PORT := by
  by_cases heq : o = obj
  · subst heq
    rw [update_self]
    exact h.class_ o ho
  · rw [update_of_ne heq]
    exact h.class_ o ho

theorem obj_constructor (hheader : objects.header obj = ⟨0, 0⟩)
    (hfresh : Fresh (portSize objects) objects.constructed blocks ⟨obj, portSize objects⟩) :
    ObjectsOk (Capability.obj_constructor objects obj) blocks g where
  constructor := h.constructor
  allocated := fun o ho => Finset.mem_insert_of_mem (h.allocated o ho)
  class_ := fun o ho => by
    simp only [Capability.obj_constructor]
    by_cases heq : o = obj
    · subst heq
      rw [update_self]
      rfl
    · rw [update_of_ne heq]
      exact h.class_ o ((Finset.mem_insert.mp ho).resolve_left heq)
  refcount := fun o ho hna => by
    simp only [Capability.obj_constructor]
    by_cases heq : o = obj
    · subst heq
      rw [update_self]
    · rw [update_of_ne heq]
      exact h.refcount o ((Finset.mem_insert.mp ho).resolve_left heq) hna
  empty := h.empty
  heap := by
    -- the class is read from the header in the zeroed page
    have hclass : objects.classes (objects.header obj).class_ = objects.classes OBJ_CLASS_PORT := by
      rw [hheader]
      rfl
    have hconstruct := h.heap.construct hfresh
    simp only [Capability.obj_constructor, hclass, h.constructor]
    exact hconstruct

theorem slab {slab : List Nat} (hslab : FreeSlab objects blocks slab) :
    ObjectsOk (slab.foldl Capability.obj_constructor objects) blocks g := by
  induction slab generalizing objects with
  | nil => exact h
  | cons o slab ih =>
    obtain ⟨hall, hpair⟩ := hslab
    rw [List.forall_mem_cons] at hall
    rw [List.pairwise_cons] at hpair
    refine ih (h.obj_constructor hall.1.1 hall.1.2) ⟨fun o' ho' => ⟨?_, ?_⟩, hpair.2⟩
    · have hne : o' ≠ o := (hpair.1 o' ho').1.symm
      simp only [Capability.obj_constructor, update_of_ne hne]
      exact (hall.2 o' ho').1
    · obtain ⟨hpos, hle, hblocks, hobjs⟩ := (hall.2 o' ho').2
      refine ⟨hpos, hle, hblocks, ?_⟩
      simp only [Capability.obj_constructor]
      rw [Finset.forall_mem_insert]
      exact ⟨(hpair.1 o' ho').symm, hobjs⟩

/-- What `object_new` returns is as it was constructed, whether it is of a
new slab or was given back. -/
theorem object_new {class_ : UInt8} (hslab : FreeSlab objects blocks (newSlab new))
    (hnew : Capability.object_new objects class_ new = some (some obj, objects')) :
    ObjectsOk objects' blocks g ∧ obj ∈ objects'.allocated ∧ g.queue obj = [] ∧
      (objects'.header obj).refcount = 0 := by
  cases new with
  | none =>
    simp only [Capability.object_new] at hnew
    split at hnew <;> cases hnew
  | some a =>
    simp only [Capability.object_new] at hnew
    split at hnew
    · cases hnew
    · split at hnew
      · next hposs =>
        cases hnew
        have hok := h.slab hslab
        have hna : a.obj ∉ (a.slab.foldl Capability.obj_constructor objects).allocated := by
          rw [(foldl_obj_constructor a.slab).2.1]
          exact hposs.1
        have hmem : a.obj ∈ (a.slab.foldl Capability.obj_constructor objects).constructed :=
          (mem_foldl_obj_constructor a.slab a.obj).mpr hposs.2.1
        refine ⟨⟨hok.constructor, ?_, hok.class_, ?_, ?_, hok.heap⟩,
          Finset.mem_insert_self _ _, hok.empty _ hna, hok.refcount _ hmem hna⟩
        · intro o ho
          rcases Finset.mem_insert.mp ho with rfl | ho
          · exact hmem
          · exact hok.allocated o ho
        · exact fun o ho hno => hok.refcount o ho fun hal => hno (Finset.mem_insert_of_mem hal)
        · exact fun o hno => hok.empty o fun hal => hno (Finset.mem_insert_of_mem hal)
      · cases hnew

theorem object_retain (hobj : obj ∈ objects.allocated) :
    ObjectsOk (Capability.object_retain objects obj) blocks g where
  constructor := h.constructor
  allocated := h.allocated
  class_ := fun _ ho => h.class_of_refcount ho
  refcount := fun o ho hna => by
    have heq : o ≠ obj := fun heq => hna (heq ▸ hobj)
    simp only [Capability.object_retain, update_of_ne heq]
    exact h.refcount o ho hna
  empty := h.empty
  heap := h.heap

theorem object_release (hobj : obj ∈ objects.allocated)
    (hempty : (objects.header obj).refcount = 1 → g.queue obj = []) :
    ObjectsOk (Capability.object_release objects obj) blocks g := by
  have hmem : ∀ o, o ∈ (Capability.object_release objects obj).allocated ↔
      o ∈ objects.allocated ∧ ¬ (o = obj ∧ (objects.header obj).refcount = 1) := by
    intro o
    simp only [Capability.object_release]
    split
    · next hone => simp [hone, and_comm]
    · next hone => simp [hone]
  refine ⟨h.constructor, fun o ho => h.allocated o ((hmem o).mp ho).1, ?_, ?_, ?_, h.heap⟩
  · exact fun _ ho => h.class_of_refcount ho
  · intro o ho hna
    rw [hmem] at hna
    simp only [Capability.object_release]
    by_cases heq : o = obj
    · subst heq
      have hone : (objects.header o).refcount = 1 := by
        by_contra hne
        exact hna ⟨hobj, fun hand => hne hand.2⟩
      rw [update_self, hone]
      rfl
    · rw [update_of_ne heq]
      exact h.refcount o ho fun hal => hna ⟨hal, fun hand => heq hand.1⟩
  · intro o hna
    rw [hmem] at hna
    by_cases hal : o ∈ objects.allocated
    · have hand : o = obj ∧ (objects.header obj).refcount = 1 := by
        by_contra hne
        exact hna ⟨hal, hne⟩
      rw [hand.1]
      exact hempty hand.2
    · exact h.empty o hal

theorem reclaim {objs : List Nat} (hobjs : ∀ o ∈ objs, o ∉ objects.allocated) :
    ObjectsOk { objects with
      constructed := objects.constructed.filter fun o => o ∉ objs } blocks g := by
  have hkeep : ∀ o ∈ objects.allocated, o ∈ objects.constructed.filter fun o => o ∉ objs :=
    fun o ho => Finset.mem_filter.mpr ⟨h.allocated o ho, fun hmem => hobjs o hmem ho⟩
  refine ⟨h.constructor, hkeep, ?_, ?_, h.empty, h.heap.reclaim ?_ ?_⟩
  · exact fun o ho => h.class_ o (Finset.mem_filter.mp ho).1
  · exact fun o ho => h.refcount o (Finset.mem_filter.mp ho).1
  · exact fun o ho => (Finset.mem_filter.mp ho).1
  · intro o hne
    refine hkeep o ?_
    by_contra hna
    exact hne (h.empty o hna)

end

end ObjectsOk

/-! ### States -/

/-- The handles that live name allocated ports, and the memory holds the
queues. -/
structure Inv (s : State π) (g : Content) : Prop where
  ok : s.cap.Ok
  named : ∀ x ∈ s.cap.handles, (s.cap.info x).binding.obj ∈ s.objects.allocated
  objects : ObjectsOk s.objects s.blocks g

/-- What was sent is what was received and what is in the queue. The messages
in the queues have a header, and the size in it is theirs. -/
structure Delivered (sent received : Nat → List (List Byte)) (g : Content) : Prop where
  history : ∀ o, sent o = received o ++ (g.queue o).map g.text
  sized : ∀ m, Queued g.queue m → 16 ≤ (g.text m).length ∧
    read64 (ofList (g.text m)) 8 = (g.text m).length

variable {s s' : State π} {g g' : Content}

theorem Inv.init (h : Init s) : Inv s ⟨fun _ => [], fun _ => 0, fun _ => []⟩ where
  ok := State.Ok.init h.cap
  named := by simp [h.cap.handles]
  objects := by
    have hnone : ∀ o, o ∉ s.objects.constructed := by simp [h.cap.constructed]
    refine ⟨h.cap.port.2, by simp [h.cap.allocated], fun o ho => absurd ho (hnone o),
      fun o ho => absurd ho (hnone o), fun _ _ => rfl, ?_⟩
    rw [h.cap.constructed, h.blocks]
    exact .empty h.portSize _

omit [DecidableEq π] in
theorem Delivered.init (h : Init s) :
    Delivered s.sent s.received ⟨fun _ => [], fun _ => 0, fun _ => []⟩ where
  history := fun o => by simp [h.sent, h.received]
  sized := by simp [Queued]

variable {p : π}

section

variable (h : Inv s g)

include h

theorem Inv.named_of_valid (hvalid : Valid s.cap p handle)
    (hrej : rejects (s.cap.tables p) handle = false) :
    (p, handle.toNat) ∈ s.cap.handles ∧ s.named p handle ∈ s.objects.allocated := by
  have hlive : (p, handle.toNat) ∈ s.cap.handles := hvalid.resolve_right (by simp [hrej])
  refine ⟨hlive, ?_⟩
  rw [State.named, ((h.ok p).value _ _ (State.live_of_mem hlive)).2]
  exact h.named _ hlive

theorem Inv.port_of_valid
    (hvalid : Valid s.cap p handle) (hne : (lookup_port (s.cap.tables p) handle rights).1.1 ≠ 0) :
    (lookup_port (s.cap.tables p) handle rights).1.1 ∈ s.objects.allocated := by
  obtain ⟨hrej, heq⟩ := lookup_port_of_ne_zero hne
  rw [heq]
  exact (h.named_of_valid hvalid hrej).2

theorem Inv.keep {objects : Objects}
    (hcap : s'.cap = s.cap.keep p table objects) (ht : TableOk table (s.cap.live p))
    (hal : objects.allocated = s.objects.allocated) (hobj : ObjectsOk objects s'.blocks g') :
    Inv s' g' where
  ok := by
    rw [hcap]
    exact h.ok.keep rfl rfl ht
  named := by
    rw [State.objects, hcap]
    intro x hx
    simp only [State.keep, hal]
    exact h.named x hx
  objects := by
    rw [State.objects, hcap]
    exact hobj

theorem Inv.bind {objects : Objects}
    (hcap : s'.cap = s.cap.bind p table objects handle ⟨access, obj⟩ origin) (hok : s'.cap.Ok)
    (hal : ∀ o ∈ s.objects.allocated, o ∈ objects.allocated) (hmem : obj ∈ objects.allocated)
    (hobj : ObjectsOk objects s'.blocks g') : Inv s' g' where
  ok := hok
  named := by
    rw [State.objects, hcap]
    intro x hx
    simp only [State.bind] at hx ⊢
    by_cases heq : x = (p, handle)
    · subst heq
      rw [update_self]
      exact hmem
    · rw [update_of_ne heq]
      exact hal _ (h.named x ((Finset.mem_insert.mp hx).resolve_left heq))
  objects := by
    rw [State.objects, hcap]
    exact hobj

/-! ### The calls -/

theorem Inv.create_obj {class_ : UInt8}
    (hstep : Port.create_obj s p class_ access new slot = some s') :
    Inv s' g ∧ (Delivered s.sent s.received g → Delivered s'.sent s'.received g) := by
  unfold Port.create_obj at hstep
  split at hstep
  · next hslab =>
    obtain ⟨cap, hcreate, rfl⟩ := Option.map_eq_some_iff.mp hstep
    constructor
    · rcases create_obj_cases hcreate with rfl | ⟨obj, objects, hnew, hs'⟩
      · exact ⟨h.ok, h.named, h.objects⟩
      · obtain ⟨hobjects, hmem, _, _⟩ := h.objects.object_new hslab hnew
        have hal : ∀ o ∈ s.objects.allocated, o ∈ objects.allocated := by
          obtain ⟨_, a, rfl, _, rfl⟩ := object_new_some hnew
          exact fun o ho => Finset.mem_insert_of_mem ho
        rcases hs' with rfl | ⟨handle, table, objects', hcap, rfl⟩
        · exact ⟨h.ok.create_obj hcreate, fun x hx => hal _ (h.named x hx), hobjects⟩
        · obtain ⟨_, _, rfl, _, _⟩ := (h.ok p).create hcap
          exact h.bind rfl (h.ok.create_obj hcreate) hal hmem (hobjects.object_retain hmem)
    · intro hdel
      refine ⟨fun o => ?_, hdel.sized⟩
      cases hnew : created s.objects class_ new with
      | none => exact hdel.history o
      | some obj =>
        -- the queue of the new port is empty
        have hnil : g.queue obj = [] := by
          unfold created at hnew
          split at hnew
          · next hsome =>
            subst hnew
            exact (h.objects.object_new hslab hsome).2.2.1
          · cases hnew
        by_cases heq : o = obj
        · subst heq
          simp [restart, hnil]
        · simp only [restart, update_of_ne heq]
          exact hdel.history o
  · cases hstep

theorem Inv.duplicate_obj {handle : UInt32}
    (hvalid : Valid s.cap p handle) (hstep : Port.duplicate_obj s p handle access slot = some s') :
    Inv s' g ∧ (Delivered s.sent s.received g → Delivered s'.sent s'.received g) := by
  obtain ⟨cap, hdup, rfl⟩ := Option.map_eq_some_iff.mp hstep
  refine ⟨?_, id⟩
  have hlook := (h.ok p).lookup handle
  rcases duplicate_obj_cases hdup with ⟨_, rfl⟩ | ⟨hdups, hs'⟩
  · exact h.keep rfl hlook rfl h.objects
  · have hrej : rejects (s.cap.tables p) handle = false := by
      simp only [duplicates, Bool.and_eq_true, Bool.not_eq_true'] at hdups
      exact hdups.1
    have hmem := (h.named_of_valid hvalid hrej).2
    have hretain := h.objects.object_retain hmem
    rcases hs' with rfl | ⟨out_handle, table, objects, hcreate, rfl⟩
    · exact h.keep rfl hlook rfl hretain
    · obtain ⟨_, _, rfl, _, _⟩ := hlook.create hcreate
      exact h.bind rfl (h.ok.duplicate_obj hdup) (fun _ ho => ho) hmem (hretain.object_retain hmem)

theorem Inv.release {handle : UInt32} (layer : Layer)
    (hcareful : Careful s (.destroy_obj p handle layer)) :
    Inv { s with cap := Capability.destroy_obj s.cap p handle } g := by
  obtain ⟨hvalid, hreturns⟩ := hcareful
  refine ⟨h.ok.destroy_obj p handle, ?_, ?_⟩
  · simp only [destroy_obj_eq]
    split
    · exact h.named
    · next hrej =>
      -- a handle that is left names another port if this one is given back
      intro x hx
      obtain ⟨hne, hx⟩ := Finset.mem_erase.mp hx
      simp only [State.unbind, object_release]
      split
      · next hone =>
        have hret : s.Returns p handle := ⟨Bool.eq_false_iff.mpr hrej, hone⟩
        exact Finset.mem_erase.mpr ⟨(hreturns hret).2 x hx hne, h.named x hx⟩
      · exact h.named x hx
  · simp only [destroy_obj_eq]
    split
    · exact h.objects
    · next hrej =>
      have hrej := Bool.eq_false_iff.mpr hrej
      have hmem := (h.named_of_valid hvalid hrej).2
      refine h.objects.object_release hmem fun hone => ?_
      exact h.objects.heap.queue_eq_nil (h.objects.allocated _ hmem) (hreturns ⟨hrej, hone⟩).1

theorem Inv.reclaim {objs : List Nat} (hobjs : ∀ o ∈ objs, o ∉ s.objects.allocated) :
    Inv (s.reclaim objs) g :=
  ⟨h.ok, h.named, h.objects.reclaim hobjs⟩

theorem Inv.destroy_obj (hcareful : Careful s (.destroy_obj p handle layer))
    (hstep : Port.destroy_obj s p handle layer = some s') :
    Inv s' g ∧ (Delivered s.sent s.received g → Delivered s'.sent s'.received g) := by
  have hrelease := h.release layer hcareful
  simp only [Port.destroy_obj] at hstep
  split at hstep
  · next hret =>
    split at hstep
    · cases hstep
      exact ⟨hrelease, id⟩
    · next fuel reclaimed =>
      split at hstep
      · cases hstep
      · next blocks hleft =>
        -- the destructor has nothing to free
        have hblocks : blocks = s.blocks := by
          have hnil := (hcareful.2 hret).1
          have hmem := (h.named_of_valid hcareful.1 hret.1).2
          rw [if_pos (h.objects.class_ _ (h.objects.allocated _ hmem)), port_destructor] at hleft
          cases fuel with
          | zero => cases hleft
          | succ fuel =>
            rw [messages, if_pos hnil] at hleft
            cases hleft
            rfl
        subst hblocks
        obtain ⟨hreclaimed, rfl⟩ := of_guard hstep
        exact ⟨hrelease.reclaim hreclaimed, id⟩
  · cases hstep
    exact ⟨hrelease, id⟩

theorem Inv.elsewhere (hstep : Port.elsewhere s a v = some s') :
    Inv s' g ∧ (Delivered s.sent s.received g → Delivered s'.sent s'.received g) := by
  obtain ⟨hout, rfl⟩ := of_guard hstep
  refine ⟨⟨h.ok, h.named, h.objects.update (h.objects.heap.frame fun x hx => ?_) h.objects.empty⟩,
    id⟩
  have hne : x ≠ a := by
    rintro rfl
    rcases hx with ⟨o, ho, hx⟩ | ⟨b, hb, hx⟩
    · exact hout.2 o ho hx
    · exact hout.1 b hb hx
  exact update_of_ne hne ..

theorem Inv.leak (hcap : s'.cap = s.cap.keep p table { s.objects with mem := mem })
    (hblocks : s'.blocks = newMessage msg ++ s.blocks) (ht : TableOk table (s.cap.live p))
    (hmsg : ∀ m, msg = some m → s.Free ⟨m, SIZEOF_KERNEL_MESSAGE⟩)
    (hmem : mem = s.mem ∨ ∃ m, msg = some m ∧ mem = write64 s.mem m 0) : Inv s' g := by
  have hheap : Heap (portSize s.objects) s.objects.constructed mem s.blocks g := by
    rcases hmem with rfl | ⟨m, hm, rfl⟩
    · exact h.objects.heap
    · exact h.objects.heap.frame fun x hx =>
        (hmsg m hm).write64_message h.objects.heap.size_ge (by omega) hx ..
  refine h.keep hcap ht rfl (h.objects.update ?_ h.objects.empty)
  rw [hblocks]
  cases msg with
  | none => exact hheap
  | some m => exact hheap.alloc (hmsg m rfl)

end

omit [DecidableEq π] in
theorem Answers.msg {msg : Option Nat} (h : Answers s size msg header) :
    ∀ m, msg = some m → s.Free ⟨m, SIZEOF_KERNEL_MESSAGE⟩ := by
  rintro m rfl
  cases header with
  | none => exact h
  | some header => exact h.1

theorem Delivered.insert (h : Delivered sent received g)
    (hm : ¬ Queued g.queue m) (hsize : 16 ≤ text.length)
    (htext : read64 (ofList text) 8 = text.length) :
    Delivered (update sent o (sent o ++ [text])) received (g.insert o m header text) := by
  have hold : ∀ x, Queued g.queue x → (g.insert o m header text).text x = g.text x :=
    fun x hx => update_of_ne (fun heq : x = m => hm (heq ▸ hx)) ..
  have hnew : (g.insert o m header text).text m = text := update_self ..
  constructor
  · intro o'
    have hmap : (g.queue o').map (g.insert o m header text).text = (g.queue o').map g.text :=
      List.map_congr_left fun x hx => hold x ⟨o', hx⟩
    by_cases heq : o' = o
    · subst heq
      simp only [Content.insert, update_self, List.map_append] at hmap ⊢
      rw [hmap, h.history o', List.append_assoc]
      simp
    · simp only [Content.insert, update_of_ne heq] at hmap ⊢
      rw [hmap]
      exact h.history o'
  · intro x hx
    rcases (Holds.queued_append g.queue o m x).mp hx with hx | rfl
    · rw [hold x hx]
      exact h.sized x hx
    · rw [hnew]
      exact ⟨hsize, htext⟩

theorem Inv.msg_send (h : Inv s g) (hvalid : Valid s.cap p (read32 message 0))
    (hstep : Port.msg_send s p message msg header = some s') :
    ∃ g', Inv s' g' ∧ (Delivered s.sent s.received g → 16 ≤ read64 message 8 →
      Delivered s'.sent s'.received g') := by
  unfold Port.msg_send at hstep
  split at hstep
  · next hanswers =>
    split at hstep
    · cases hstep
    · next table mem hsend =>
      cases hstep
      obtain ⟨ht, hsent⟩ := message_send_cases hsend
      rcases hsent with ⟨_, hmem⟩ | ⟨_, _, _, _, _, _, _, hr, _⟩
      · exact ⟨g, h.leak rfl rfl (ht _ (h.ok p)) hanswers.msg hmem, fun hdel _ => hdel⟩
      · cases hr
    · next destination table mem hsend =>
      cases hstep
      obtain ⟨ht, hsent⟩ := message_send_cases hsend
      rcases hsent with ⟨hr, _⟩ | ⟨m, hd, reply, -, -, rfl, rfl, hr, hne, hins⟩
      · cases hr
      · cases hr
        obtain ⟨hm, hhd, hapart⟩ := hanswers
        have hal := h.port_of_valid hvalid hne
        obtain ⟨mem', hins', hheap⟩ :=
          h.objects.heap.send (h.objects.allocated _ hal) hm hhd hapart message reply
        cases hins.symm.trans hins'
        refine ⟨_, h.keep rfl (ht _ (h.ok p)) rfl (h.objects.update hheap ?_), fun hdel hsize => ?_⟩
        · intro o ho
          have hne : o ≠ (lookup_port (s.cap.tables p) (read32 message 0) 0).1.1 :=
            fun heq => ho (heq ▸ hal)
          simp only [Content.insert, update_of_ne hne]
          exact h.objects.empty o ho
        · refine hdel.insert ?_ (by simpa using hsize) ?_
          · exact fun hq => (hm.2.2.1 _ (h.objects.heap.message m hq)).1 rfl
          · rw [read64_ofList_bytes (by omega), length_bytes, Nat.zero_add]
  · cases hstep

theorem Delivered.remove (h : Delivered sent received g) (hq : g.queue o = m :: l) :
    Delivered sent (update received o (received o ++ [g.text m])) (g.remove o m) := by
  have hsub : ∀ x, Queued (g.remove o m).queue x → Queued g.queue x := by
    rintro x ⟨o', hx⟩
    by_cases heq : o' = o
    · subst heq
      simp only [Content.remove, update_self] at hx
      exact ⟨o', List.mem_of_mem_erase hx⟩
    · simp only [Content.remove, update_of_ne heq] at hx
      exact ⟨o', hx⟩
  refine ⟨fun o' => ?_, fun x hx => h.sized x (hsub x hx)⟩
  by_cases heq : o' = o
  · subst heq
    simp only [Content.remove, update_self, hq, List.erase_cons_head]
    rw [h.history o', hq]
    simp
  · simp only [Content.remove, update_of_ne heq]
    exact h.history o'

theorem Inv.msg_recv (h : Inv s g) (hvalid : Valid s.cap p port)
    (hstep : Port.msg_recv s p port rights = some s') :
    ∃ g', Inv s' g' ∧ (Delivered s.sent s.received g → Delivered s'.sent s'.received g') := by
  unfold Port.msg_recv at hstep
  split at hstep
  · cases hstep
  · next table mem hrecv =>
    cases hstep
    obtain ⟨ht, hreceived⟩ := message_receive_cases (h.ok p) hrecv
    rcases hreceived with ⟨_, rfl⟩ | ⟨_, _, _, _, _, _, hr, _⟩
    · exact ⟨g, h.keep rfl ht rfl h.objects, id⟩
    · cases hr
  · next r table mem hrecv =>
    cases hstep
    obtain ⟨ht, hreceived⟩ := message_receive_cases (h.ok p) hrecv
    rcases hreceived with ⟨hr, _⟩ | ⟨o, m, ho, hne, hfirst, hm, hr, hrem⟩
    · cases hr
    · cases hr
      have hal : o ∈ s.objects.allocated := by
        rw [ho] at hne ⊢
        exact h.port_of_valid hvalid hne
      have hheap := h.objects.heap
      -- the first message of the queue
      obtain ⟨l, hq⟩ : ∃ l, g.queue o = m :: l := by
        rw [hheap.first (h.objects.allocated o hal)] at hfirst
        cases hq : g.queue o with
        | nil =>
          rw [hq] at hfirst
          exact absurd hfirst hm
        | cons x l =>
          rw [hq] at hfirst
          exact ⟨l, by rw [hfirst]; rfl⟩
      have hmem : m ∈ g.queue o := by simp [hq]
      have hpointer := hheap.pointer m ⟨o, hmem⟩
      obtain ⟨mem', hrem', hpointer', hremoved⟩ := hheap.remove hmem
      cases hrem.symm.trans hrem'
      refine ⟨g.remove o m, h.keep rfl ht rfl (h.objects.update ?_ ?_), fun hdel => ?_⟩
      · rw [hpointer']
        exact hremoved
      · intro x hx
        have hxo : x ≠ o := fun heq => hx (heq ▸ hal)
        simp only [Content.remove, update_of_ne hxo]
        exact h.objects.empty x hx
      · -- the size in the header is that of the message
        obtain ⟨hsize, hword⟩ := hdel.sized m ⟨o, hmem⟩
        have htext := hheap.text m ⟨o, hmem⟩
        have hlen : read64 s.mem (g.header m + 8) = (g.text m).length := by
          rw [← hword, ← htext, read64_ofList_bytes (by simpa using hsize)]
        simp only [hpointer, hlen, htext]
        exact hdel.remove hq

theorem Inv.step (h : Inv s g) {a : Action π} (hcareful : Careful s a)
    (hstep : Port.step s a = some s') : ∃ g', Inv s' g' ∧ (Delivered s.sent s.received g → Sized a →
      Delivered s'.sent s'.received g') := by
  cases a with
  | create_obj p class_ access new slot =>
    obtain ⟨hinv, hdel⟩ := h.create_obj hstep
    exact ⟨g, hinv, fun hd _ => hdel hd⟩
  | duplicate_obj p handle access slot =>
    obtain ⟨hinv, hdel⟩ := h.duplicate_obj hcareful hstep
    exact ⟨g, hinv, fun hd _ => hdel hd⟩
  | destroy_obj p handle layer =>
    obtain ⟨hinv, hdel⟩ := h.destroy_obj hcareful hstep
    exact ⟨g, hinv, fun hd _ => hdel hd⟩
  | msg_send p message msg header => exact h.msg_send hcareful hstep
  | msg_recv p port rights =>
    obtain ⟨g', hinv, hdel⟩ := h.msg_recv hcareful hstep
    exact ⟨g', hinv, fun hd _ => hdel hd⟩
  | elsewhere a v =>
    obtain ⟨hinv, hdel⟩ := h.elsewhere hstep
    exact ⟨g, hinv, fun hd _ => hdel hd⟩

theorem Inv.of_reachableBy (hs : ReachableBy (system π) Careful s) : ∃ g, Inv s g := by
  induction hs with
  | init h => exact ⟨_, .init h⟩
  | step a _ hcareful hstep ih =>
    obtain ⟨g, hinv⟩ := ih
    obtain ⟨g', hinv', _⟩ := hinv.step hcareful hstep
    exact ⟨g', hinv'⟩

theorem Delivered.of_reachableBy
    (hs : ReachableBy (system π) (fun s a => Careful s a ∧ Sized a) s) :
    ∃ g, Inv s g ∧ Delivered s.sent s.received g := by
  induction hs with
  | init h => exact ⟨_, .init h, .init h⟩
  | step a _ hok hstep ih =>
    obtain ⟨g, hinv, hdel⟩ := ih
    obtain ⟨g', hinv', hdel'⟩ := hinv.step hok.1 hstep
    exact ⟨g', hinv', hdel' hdel hok.2⟩

end Port
