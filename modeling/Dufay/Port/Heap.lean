import Dufay.Port.Messages

/-! # The queues of all ports in memory

Where the objects and the blocks are (`Layout`), and what is in them
(`Heap`): the queues of the objects hold lists of messages, the objects
that are not allocated included, and every message has two blocks of its
own. The second one holds the bytes that were sent.
-/

open Lts Memory Tailq Function

namespace Port

/-! ### Layout -/

/-- The objects, which have `size` bytes, and the blocks are in the address
space and do not overlap. -/
structure Layout (size : Nat) (objs : Finset Nat) (blocks : List Block) : Prop where
  size_ge : 16 ≤ size
  object_in : ∀ o ∈ objs, 0 < o ∧ o + size ≤ 18446744073709551616
  block_in : ∀ b ∈ blocks, 0 < b.base ∧ b.base + b.size ≤ 18446744073709551616
  object_apart : ∀ o ∈ objs, ∀ o' ∈ objs, o ≠ o' → Block.Apart ⟨o, size⟩ ⟨o', size⟩
  block_apart : ∀ b ∈ blocks, ∀ c ∈ blocks, b ≠ c → b.Apart c
  block_object : ∀ b ∈ blocks, ∀ o ∈ objs, b.Apart ⟨o, size⟩

variable {size : Nat} {objs objs' : Finset Nat} {blocks blocks' : List Block} {b : Block}

theorem Block.Apart.symm (h : b.Apart c) : c.Apart b := ⟨h.1.symm, h.2.symm⟩

section

variable (h : Layout size objs blocks)

include h

theorem Layout.mono (hobjs : ∀ o ∈ objs', o ∈ objs)
    (hblocks : ∀ b ∈ blocks', b ∈ blocks) : Layout size objs' blocks' where
  size_ge := h.size_ge
  object_in := fun o ho => h.object_in o (hobjs o ho)
  block_in := fun b hb => h.block_in b (hblocks b hb)
  object_apart := fun o ho o' ho' => h.object_apart o (hobjs o ho) o' (hobjs o' ho')
  block_apart := fun b hb c hc => h.block_apart b (hblocks b hb) c (hblocks c hc)
  block_object := fun b hb o ho => h.block_object b (hblocks b hb) o (hobjs o ho)

theorem Layout.alloc (hb : Fresh size objs blocks b) : Layout size objs (b :: blocks) where
  size_ge := h.size_ge
  object_in := h.object_in
  block_in := by
    rw [List.forall_mem_cons]
    exact ⟨⟨hb.1.1, hb.2.1⟩, h.block_in⟩
  object_apart := h.object_apart
  block_apart := by
    intro c hc c' hc' hne
    rcases List.mem_cons.mp hc with rfl | hcb <;> rcases List.mem_cons.mp hc' with rfl | hcb'
    · exact absurd rfl hne
    · exact hb.2.2.1 c' hcb'
    · exact (hb.2.2.1 c hcb).symm
    · exact h.block_apart c hcb c' hcb' hne
  block_object := by
    rw [List.forall_mem_cons]
    exact ⟨hb.2.2.2, h.block_object⟩

theorem Layout.construct
    (ho : Fresh size objs blocks ⟨o, size⟩) : Layout size (insert o objs) blocks where
  size_ge := h.size_ge
  object_in := by
    rw [Finset.forall_mem_insert]
    exact ⟨⟨ho.1.1, ho.2.1⟩, h.object_in⟩
  block_in := h.block_in
  object_apart := by
    intro c hc c' hc' hne
    rcases Finset.mem_insert.mp hc with rfl | hco <;>
      rcases Finset.mem_insert.mp hc' with rfl | hco'
    · exact absurd rfl hne
    · exact ho.2.2.2 c' hco'
    · exact (ho.2.2.2 c hco).symm
    · exact h.object_apart c hco c' hco' hne
  block_apart := h.block_apart
  block_object := fun b hb => by
    rw [Finset.forall_mem_insert]
    exact ⟨(ho.2.2.1 b hb).symm, h.block_object b hb⟩

theorem Layout.placed
    (hN : ∀ m, N m → ⟨m, SIZEOF_KERNEL_MESSAGE⟩ ∈ blocks) : Placed 16 (· ∈ objs) N := by
  have hsize := h.size_ge
  refine .of_apart (le_refl SIZEOF_KERNEL_MESSAGE) ?_ ?_ ?_ ?_ ?_
  · intro o ho
    have := h.object_in o ho
    omega
  · exact fun m hm => h.block_in _ (hN m hm)
  · intro o o' ho ho' hne
    have := (h.object_apart o ho o' ho' hne).2
    simp only at this
    omega
  · intro m m' hm hm' hne
    exact (h.block_apart _ (hN m hm) _ (hN m' hm') (by simpa using hne)).2
  · intro o m ho hm
    have := (h.block_object _ (hN m hm) o ho).2
    simp only at this
    omega

end

theorem field_outside (hobj : ∀ o ∈ objs, ¬ (o ≤ x ∧ x < o + 16))
    (hmsg : ∀ m, N m → ¬ (m + 16 ≤ x ∧ x < m + 32)) :
    ∀ f : Field, f.In (· ∈ objs) N → ¬ (f.addr 16 ≤ x ∧ x < f.addr 16 + 8) := by
  rintro ((o | m) | o | m) hf <;> simp only [Field.addr]
  · have := hobj o hf
    omega
  · have := hmsg m hf
    omega
  · have := hobj o hf
    omega
  · have := hmsg m hf
    omega

section unchanged

variable {mem mem' : Mem} {N : Nat → Prop}

section
variable (h : Layout size objs blocks) (hN : ∀ m, N m → ⟨m, SIZEOF_KERNEL_MESSAGE⟩ ∈ blocks)
  (hsame : SameOutside 16 (· ∈ objs) N mem mem')
include h hN hsame

theorem Layout.read64_same (hm : ⟨m, SIZEOF_KERNEL_MESSAGE⟩ ∈ blocks) : read64 mem' m = read64 mem m
    := by
  have hsize := h.size_ge
  refine read64_congr fun x hle hlt => hsame x (field_outside ?_ ?_)
  · intro o ho
    have := (h.block_object _ hm o ho).2
    simp only [SIZEOF_KERNEL_MESSAGE] at this
    omega
  · intro m' hm'
    by_cases heq : m = m'
    · omega
    · have := (h.block_apart _ hm _ (hN m' hm') (by simpa using heq)).2
      simp only [SIZEOF_KERNEL_MESSAGE] at this
      omega

theorem Layout.bytes_same (hb : ⟨a, n⟩ ∈ blocks)
    (hne : ∀ m, N m → a ≠ m) : bytes mem' a n = bytes mem a n := by
  have hsize := h.size_ge
  rw [bytes_eq_iff]
  intro i hi
  refine hsame (a + i) (field_outside ?_ ?_)
  · intro o ho
    have := (h.block_object _ hb o ho).2
    simp only at this
    omega
  · intro m hm
    have hblock : (⟨a, n⟩ : Block) ≠ ⟨m, SIZEOF_KERNEL_MESSAGE⟩ := fun heq =>
      hne m hm (Block.mk.inj heq).1
    have := (h.block_apart _ hb _ (hN m hm) hblock).2
    simp only [SIZEOF_KERNEL_MESSAGE] at this
    omega

end

end unchanged

/-! ### What is in the blocks -/

/-- What was sent: the messages of each port, and for each message its block
of bytes and what they are. -/
structure Content where
  queue : Nat → List Nat
  header : Nat → Nat
  text : Nat → List Byte

/-- The memory holds the queues and the messages in them. -/
structure Heap (size : Nat) (objs : Finset Nat) (mem : Mem) (blocks : List Block)
    (g : Content) : Prop extends Layout size objs blocks where
  holds : Holds 16 mem (· ∈ objs) g.queue
  message : ∀ m, Queued g.queue m → ⟨m, SIZEOF_KERNEL_MESSAGE⟩ ∈ blocks
  header : ∀ m, Queued g.queue m → ⟨g.header m, (g.text m).length⟩ ∈ blocks
  pointer : ∀ m, Queued g.queue m → read64 mem m = g.header m
  text : ∀ m, Queued g.queue m → bytes mem (g.header m) (g.text m).length = g.text m
  header_ne : ∀ m m', Queued g.queue m → Queued g.queue m' → g.header m ≠ m'
  header_inj : ∀ m m', Queued g.queue m → Queued g.queue m' → g.header m = g.header m' → m = m'

/-- The bytes of the queues and of the blocks. -/
def Owned (objs : Finset Nat) (blocks : List Block) (x : Nat) : Prop :=
  (∃ o ∈ objs, o ≤ x ∧ x < o + 16) ∨ ∃ b ∈ blocks, b.base ≤ x ∧ x < b.base + b.size

theorem Fresh.not_owned (hsize : 16 ≤ size) (hb : Fresh size objs blocks b)
    (hx : Owned objs blocks x) : ¬ (b.base ≤ x ∧ x < b.base + b.size) := by
  rcases hx with ⟨o, ho, hx⟩ | ⟨c, hc, hx⟩
  · have := (hb.2.2.2 o ho).2
    simp only at this
    omega
  · have := (hb.2.2.1 c hc).2
    omega

theorem Fresh.write64_message (hsize : 16 ≤ size)
    (hb : Fresh size objs blocks ⟨m, SIZEOF_KERNEL_MESSAGE⟩) (ha : m ≤ a ∧ a + 8 ≤ m + 32)
    (hx : Owned objs blocks x) (mem : Mem) (v : Nat) : write64 mem a v x = mem x := by
  have hout := hb.not_owned hsize hx
  simp only [SIZEOF_KERNEL_MESSAGE] at hout
  exact write64_outside (by omega)

variable {mem mem' : Mem} {g : Content}

namespace Heap

theorem empty (hsize : 16 ≤ size) (mem : Mem) :
    Heap size ∅ mem [] ⟨fun _ => [], fun _ => 0, fun _ => []⟩ where
  size_ge := hsize
  object_in := by simp
  block_in := by simp
  object_apart := by simp
  block_apart := by simp
  block_object := by simp
  holds := (Holds.empty 16 mem).mono (by simp) (by simp)
  message := by simp [Queued]
  header := by simp [Queued]
  pointer := by simp [Queued]
  text := by simp [Queued]
  header_ne := by simp [Queued]
  header_inj := by simp [Queued]

section

variable (h : Heap size objs mem blocks g)

include h

theorem placed : Placed 16 (· ∈ objs) (Queued g.queue) := h.toLayout.placed h.message

theorem first (ho : o ∈ objs) : read64 mem o = (g.queue o).head?.getD 0 := h.holds.first ho

theorem queue_eq_nil (ho : o ∈ objs) (hfirst : read64 mem o = 0) : g.queue o = [] := by
  rw [h.first ho] at hfirst
  cases hq : g.queue o with
  | nil => rfl
  | cons m l =>
    have hpos := h.block_in _ (h.message m ⟨o, by simp [hq]⟩)
    rw [hq] at hfirst
    simp only [List.head?_cons, Option.getD_some] at hfirst
    exact absurd hfirst (by have := hpos.1; simp only at this; omega)

theorem frame (heq : ∀ x, Owned objs blocks x → mem' x = mem x) : Heap size objs mem' blocks g := by
  have hblock : ∀ b ∈ blocks, ∀ x, b.base ≤ x → x < b.base + b.size → mem' x = mem x :=
    fun b hb x hle hlt => heq x (.inr ⟨b, hb, hle, hlt⟩)
  refine { h with holds := h.holds.congr ?_, pointer := ?_, text := ?_ }
  · rintro ((o | m) | o | m) hf x hle hlt <;> simp only [Field.addr] at hle hlt
    · exact heq x (.inl ⟨o, hf, by omega⟩)
    · exact hblock _ (h.message m hf) x (by simp only; omega)
        (by simp only [SIZEOF_KERNEL_MESSAGE]; omega)
    · exact heq x (.inl ⟨o, hf, by omega⟩)
    · exact hblock _ (h.message m hf) x (by simp only; omega)
        (by simp only [SIZEOF_KERNEL_MESSAGE]; omega)
  · intro m hm
    rw [← h.pointer m hm]
    refine read64_congr fun x hle hlt => hblock _ (h.message m hm) x hle ?_
    simp only [SIZEOF_KERNEL_MESSAGE]
    omega
  · intro m hm
    refine Eq.trans ?_ (h.text m hm)
    rw [bytes_eq_iff]
    exact fun i hi => hblock _ (h.header m hm) _ (by simp) (by simpa using hi)

theorem alloc (hb : Fresh size objs blocks b) : Heap size objs mem (b :: blocks) g :=
  { h with
    toLayout := h.toLayout.alloc hb
    message := fun m hm => List.mem_cons_of_mem _ (h.message m hm)
    header := fun m hm => List.mem_cons_of_mem _ (h.header m hm) }

theorem free (hptr : ∀ m, Queued g.queue m → m ≠ ptr ∧ g.header m ≠ ptr) :
    Heap size objs mem (kmem_free blocks ptr) g :=
  { h with
    toLayout := h.toLayout.mono (fun _ ho => ho) fun _ hb => (List.mem_filter.mp hb).1
    message := fun m hm =>
      List.mem_filter.mpr ⟨h.message m hm, decide_eq_true (hptr m hm).1⟩
    header := fun m hm =>
      List.mem_filter.mpr ⟨h.header m hm, decide_eq_true (hptr m hm).2⟩ }

theorem reclaim (hobjs : ∀ o ∈ objs', o ∈ objs)
    (hempty : ∀ o, g.queue o ≠ [] → o ∈ objs') : Heap size objs' mem blocks g :=
  { h with
    toLayout := h.toLayout.mono hobjs fun _ hb => hb
    holds := h.holds.mono hobjs hempty }

/-! ### The operations on the queues -/

theorem construct (ho : Fresh size objs blocks ⟨o, size⟩) :
    Heap size (insert o objs) (Capability.port_constructor (zero mem o size) o) blocks g := by
  have hsize := h.size_ge
  have hlayout := h.toLayout.construct ho
  -- no byte of the object is one of the others
  have hzero : Heap size objs (zero mem o size) blocks g := by
    refine h.frame fun x hx => zero_apply _ _ _ ?_
    rcases hx with ⟨o', ho', hx⟩ | ⟨b, hb, hx⟩
    · have := (ho.2.2.2 o' ho').2
      simp only at this
      omega
    · have := (ho.2.2.1 b hb).2
      simp only at this
      omega
  have hnil : g.queue o = [] := by
    by_contra hne
    exact (ho.2.2.2 o (h.holds.head o hne)).1 rfl
  have hset : (fun x => x ∈ objs ∨ x = o) = (· ∈ insert o objs) := by
    funext x
    simp [or_comm]
  obtain ⟨hinit, hsame⟩ := hzero.holds.init (hset ▸ hlayout.placed h.message) hnil
  rw [hset] at hinit hsame
  refine { hzero with toLayout := hlayout, holds := hinit, pointer := ?_, text := ?_ }
  · intro m hm
    exact (hlayout.read64_same h.message hsame (h.message m hm)).trans (hzero.pointer m hm)
  · intro m hm
    exact (hlayout.bytes_same h.message hsame (h.header m hm) (fun m' hm' =>
      h.header_ne m m' hm hm')).trans (hzero.text m hm)

end

end Heap

def Content.insert (g : Content) (o m header : Nat) (text : List Byte) : Content where
  queue := update g.queue o (g.queue o ++ [m])
  header := update g.header m header
  text := update g.text m text

def Content.remove (g : Content) (o m : Nat) : Content :=
  { g with queue := update g.queue o ((g.queue o).erase m) }

namespace Heap

section
variable (h : Heap size objs mem blocks g)
include h

theorem insert {header : Nat} {text : List Byte}
    (ho : o ∈ objs) (hm : ⟨m, SIZEOF_KERNEL_MESSAGE⟩ ∈ blocks)
    (hheader : ⟨header, text.length⟩ ∈ blocks) (hpointer : read64 mem m = header)
    (htext : bytes mem header text.length = text) (hne : header ≠ m)
    (hold : ∀ m', Queued g.queue m' →
      (m' ≠ m ∧ g.header m' ≠ m) ∧ m' ≠ header ∧ g.header m' ≠ header) :
    ∃ mem', Capability.TAILQ_INSERT_TAIL mem o m = some mem' ∧
      Heap size objs mem' blocks (g.insert o m header text) := by
  have hN : ∀ x, Queued g.queue x ∨ x = m → ⟨x, SIZEOF_KERNEL_MESSAGE⟩ ∈ blocks := by
    rintro x (hx | rfl)
    · exact h.message x hx
    · exact hm
  obtain ⟨mem', hins, hholds, hsame⟩ := h.holds.insertTail (h.toLayout.placed hN) ho
    (fun hq => (hold m hq).1.1 rfl)
  -- the new message, or an old one
  have hcases : ∀ x, Queued (g.insert o m header text).queue x →
      x = m ∨ Queued g.queue x ∧ x ≠ m := by
    intro x hx
    rcases (Holds.queued_append g.queue o m x).mp hx with hx | rfl
    · exact .inr ⟨hx, (hold x hx).1.1⟩
    · exact .inl rfl
  have hheader_m : (g.insert o m header text).header m = header := update_self ..
  have htext_m : (g.insert o m header text).text m = text := update_self ..
  have hheader_of_ne : ∀ {x}, x ≠ m → (g.insert o m header text).header x = g.header x :=
    fun hx => update_of_ne hx ..
  have htext_of_ne : ∀ {x}, x ≠ m → (g.insert o m header text).text x = g.text x :=
    fun hx => update_of_ne hx ..
  refine ⟨mem', hins, ⟨h.toLayout, hholds, ?_, ?_, ?_, ?_, ?_, ?_⟩⟩
  · intro x hx
    exact hN x ((Holds.queued_append g.queue o m x).mp hx)
  · intro x hx
    rcases hcases x hx with rfl | ⟨hxq, hxm⟩
    · rwa [hheader_m, htext_m]
    · rw [hheader_of_ne hxm, htext_of_ne hxm]
      exact h.header x hxq
  · intro x hx
    rcases hcases x hx with rfl | ⟨hxq, hxm⟩
    · rw [hheader_m, h.toLayout.read64_same hN hsame hm, hpointer]
    · rw [hheader_of_ne hxm, h.toLayout.read64_same hN hsame (h.message x hxq), h.pointer x hxq]
  · intro x hx
    rcases hcases x hx with rfl | ⟨hxq, hxm⟩
    · rw [hheader_m, htext_m, h.toLayout.bytes_same hN hsame hheader, htext]
      rintro x (hx | rfl)
      · exact (hold x hx).2.1.symm
      · exact hne
    · rw [hheader_of_ne hxm, htext_of_ne hxm, h.toLayout.bytes_same hN hsame (h.header x hxq),
        h.text x hxq]
      rintro x' (hx' | rfl)
      · exact h.header_ne x x' hxq hx'
      · exact (hold x hxq).1.2
  · intro x x' hx hx'
    rcases hcases x hx with rfl | ⟨hxq, hxm⟩ <;> rcases hcases x' hx' with rfl | ⟨hxq', hxm'⟩
    · rwa [hheader_m]
    · rw [hheader_m]
      exact (hold x' hxq').2.1.symm
    · rw [hheader_of_ne hxm]
      exact (hold x hxq).1.2
    · rw [hheader_of_ne hxm]
      exact h.header_ne x x' hxq hxq'
  · intro x x' hx hx' heq
    rcases hcases x hx with rfl | ⟨hxq, hxm⟩ <;> rcases hcases x' hx' with rfl | ⟨hxq', hxm'⟩
    · rfl
    · rw [hheader_m, hheader_of_ne hxm'] at heq
      exact absurd heq.symm (hold x' hxq').2.2
    · rw [hheader_m, hheader_of_ne hxm] at heq
      exact absurd heq (hold x hxq).2.2
    · rw [hheader_of_ne hxm, hheader_of_ne hxm'] at heq
      exact h.header_inj x x' hxq hxq' heq

theorem send {header n : Nat} (ho : o ∈ objs)
    (hm : Fresh size objs blocks ⟨m, SIZEOF_KERNEL_MESSAGE⟩)
    (hheader : Fresh size objs blocks ⟨header, n⟩)
    (hapart : Block.Apart ⟨header, n⟩ ⟨m, SIZEOF_KERNEL_MESSAGE⟩) (message : Mem) (reply : Nat) :
    ∃ mem', Capability.TAILQ_INSERT_TAIL
        (write64 (copy (write64 mem m header) header message n) (m + 8) reply) o m = some mem' ∧
      Heap size objs mem' (⟨header, n⟩ :: ⟨m, SIZEOF_KERNEL_MESSAGE⟩ :: blocks)
        (g.insert o m header (bytes message 0 n)) := by
  let mem₁ := write64 mem m header
  let mem₂ := copy mem₁ header message n
  let mem₃ := write64 mem₂ (m + 8) reply
  have hdisj := hapart.2
  simp only [SIZEOF_KERNEL_MESSAGE] at hdisj
  have hfilled : Heap size objs mem₃ blocks g := h.frame fun x hx =>
    calc mem₃ x = mem₂ x := hm.write64_message h.size_ge (by omega) hx ..
      _ = mem₁ x := copy_outside (hheader.not_owned h.size_ge hx)
      _ = mem x := hm.write64_message h.size_ge (by omega) hx ..
  have hheader' : Fresh size objs (⟨m, SIZEOF_KERNEL_MESSAGE⟩ :: blocks) ⟨header, n⟩ :=
    ⟨hheader.1, hheader.2.1, List.forall_mem_cons.mpr ⟨hapart, hheader.2.2.1⟩, hheader.2.2.2⟩
  have hpointer : read64 mem₃ m = header :=
    calc read64 mem₃ m = read64 mem₂ m := read64_write64_of_disjoint (by omega)
      _ = read64 mem₁ m := read64_congr fun x hle hlt => copy_outside (by omega)
      _ = header := read64_write64_of_lt hheader.1.2
  have htext : bytes mem₃ header n = bytes message 0 n :=
    calc bytes mem₃ header n = bytes mem₂ header n :=
          bytes_eq_iff.mpr fun i hi => write64_outside (by omega)
      _ = bytes message 0 n := bytes_copy ..
  refine ((hfilled.alloc hm).alloc hheader').insert ho (by simp) (by simp) hpointer
    (by simpa using htext) hapart.1 fun m' hm' => ⟨⟨?_, ?_⟩, ?_, ?_⟩
  · exact (hm.2.2.1 _ (h.message m' hm')).1.symm
  · exact (hm.2.2.1 _ (h.header m' hm')).1.symm
  · exact (hheader.2.2.1 _ (h.message m' hm')).1.symm
  · exact (hheader.2.2.1 _ (h.header m' hm')).1.symm

theorem remove (hm : m ∈ g.queue o) :
    ∃ mem', Capability.TAILQ_REMOVE mem o m = some mem' ∧ read64 mem' m = g.header m ∧
      Heap size objs mem' (kmem_free (kmem_free blocks (g.header m)) m) (g.remove o m) := by
  obtain ⟨mem', hrem, hholds, hsame⟩ := h.holds.remove h.placed hm
  have hmq : Queued g.queue m := ⟨o, hm⟩
  have hold : ∀ x, Queued (g.remove o m).queue x → Queued g.queue x ∧ x ≠ m :=
    fun x hx => (h.holds.not_queued_erase hm x).mp hx
  have hremoved : Heap size objs mem' blocks (g.remove o m) := by
    refine ⟨h.toLayout, hholds, ?_, ?_, ?_, ?_, ?_, ?_⟩
    · exact fun x hx => h.message x (hold x hx).1
    · exact fun x hx => h.header x (hold x hx).1
    · intro x hx
      have hx := (hold x hx).1
      exact (h.toLayout.read64_same h.message hsame (h.message x hx)).trans (h.pointer x hx)
    · intro x hx
      have hx := (hold x hx).1
      exact (h.toLayout.bytes_same h.message hsame (h.header x hx) (fun x' hx' =>
        h.header_ne x x' hx hx')).trans (h.text x hx)
    · exact fun x x' hx hx' => h.header_ne x x' (hold x hx).1 (hold x' hx').1
    · exact fun x x' hx hx' => h.header_inj x x' (hold x hx).1 (hold x' hx').1
  have hpointer : read64 mem' m = g.header m :=
    (h.toLayout.read64_same h.message hsame (h.message m hmq)).trans (h.pointer m hmq)
  refine ⟨mem', hrem, hpointer, (hremoved.free ?_).free ?_⟩
  · intro x hx
    obtain ⟨hxq, hxm⟩ := hold x hx
    exact ⟨(h.header_ne m x hmq hxq).symm, fun heq => hxm (h.header_inj x m hxq hmq heq)⟩
  · intro x hx
    obtain ⟨hxq, hxm⟩ := hold x hx
    exact ⟨hxm, h.header_ne x m hxq hmq⟩

end

end Heap

end Port
