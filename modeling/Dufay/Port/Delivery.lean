import Dufay.Port.Invariant

/-! # Delivery of messages, and new ports

The receiver takes the size of a message from the copy of the header in the
kernel. A message that is shorter has none of its own there, and what
follows it in memory is copied out as well.

Neither a magazine nor `object_new` clears the queue of a port.
-/

open Lts Memory Capability

namespace Port

universe u

variable {π : Type u} [DecidableEq π] {s : State π}

/-! ### Delivery -/

/-- **Messages are delivered in order, once and intact**, in every run in
which they have the size of a header at least: what was copied out of a
port is a first part of what was accepted for it, byte by byte. -/
theorem delivered_in_order
    (hs : ReachableBy (system π) (fun s a => Careful s a ∧ Sized a) s) (port : Nat) :
    s.received port <+: s.sent port := by
  obtain ⟨g, _, hdel⟩ := Delivered.of_reachableBy hs
  rw [hdel.history port]
  exact List.prefix_append _ _

/-- A message from and to handle 0. -/
def messageOf (size : Byte) (data : List Byte) : Mem :=
  ofList ([0, 0, 0, 0, 0, 0, 0, 0, size, 0, 0, 0, 0, 0, 0, 0] ++ data)

/-- The port 4096 is created at handle 0. -/
def createPort (slab : List Nat) : Action Unit :=
  .create_obj () OBJ_CLASS_PORT (PORT_RIGHT_RECV ||| PORT_RIGHT_SEND) (some ⟨4096, slab⟩)
    (some (firstAlloc 0))

/-- Two messages are sent and one is received. -/
theorem delivered_in_order_two : ∃ s, execBy (system Unit) (fun s a => Careful s a ∧ Sized a) boot
        [createPort [4096],
          .msg_send () (messageOf 17 [42]) (some 8192) (some 12288),
          .msg_send () (messageOf 16 []) (some 8224) (some 12320), .msg_recv () 0 0] = some s ∧
      s.received 4096 = [bytes (messageOf 17 [42]) 0 17] ∧
      s.sent 4096 = [bytes (messageOf 17 [42]) 0 17, bytes (messageOf 16 []) 0 16] ∧
      s.received 4096 <+: s.sent 4096 := by
  refine run_imp (fun s => s.received 4096 = [bytes (messageOf 17 [42]) 0 17] ∧
      s.sent 4096 = [bytes (messageOf 17 [42]) 0 17, bytes (messageOf 16 []) 0 16])
    (by decide +kernel) fun s hexec hs => ⟨hs.1, hs.2, ?_⟩
  exact delivered_in_order (.of_execBy (.init init_boot) hexec) 4096

/-- **The size is not part of a short message**: of a message of 8 bytes
these are copied into the kernel, and the size is read from what follows
them there. Nine bytes come out, and the last one was never sent. -/
theorem size_not_copied : ∃ s, execBy (system Unit) Careful boot
        [createPort [4096], .msg_send () (messageOf 8 []) (some 8192) (some 12288),
          .elsewhere 12296 9, .msg_recv () 0 0] = some s ∧
      s.sent 4096 = [[0, 0, 0, 0, 0, 0, 0, 0]] ∧
      s.received 4096 = [[0, 0, 0, 0, 0, 0, 0, 0, 9]] ∧
      ¬ s.received 4096 <+: s.sent 4096 := by
  decide +kernel

/-! ### New ports -/

theorem Inv.message_receive_eq (h : Inv s g) (ho : o ∈ s.objects.allocated) (hne : o ≠ 0)
    (hport : (lookup_port (s.cap.tables p) port rights).1 = (o, r))
    (hright : r &&& PORT_RIGHT_RECV ≠ 0) (hq : g.queue o = m :: l) :
    ∃ table mem, message_receive (s.cap.tables p) s.mem port rights =
      some (some ⟨o, m, g.header m,
        bytes s.mem (g.header m) (read64 s.mem (g.header m + 8))⟩, table, mem) := by
  have hheap := h.objects.heap
  have hqm : Tailq.Queued g.queue m := ⟨o, by simp [hq]⟩
  have hm := (hheap.block_in _ (hheap.message m hqm)).1
  have hhd := (hheap.block_in _ (hheap.header m hqm)).1
  have hfirst : read64 s.mem o = m := by
    rw [hheap.first (h.objects.allocated o ho), hq]
    rfl
  obtain ⟨mem', hrem, hpointer', -⟩ := hheap.remove (o := o) (m := m) (by simp [hq])
  refine ⟨(lookup_port (s.cap.tables p) port rights).2, mem', ?_⟩
  simp only [message_receive, hport, hright, if_false, hne, hfirst, hm.ne', hheap.pointer m hqm,
    hhd.ne', hrem, hpointer', Option.map_some]

theorem Delivered.out_eq (hdel : Delivered sent received g) (h : Heap size objs mem blocks g)
    (hm : Tailq.Queued g.queue m) :
    bytes mem (g.header m) (read64 mem (g.header m + 8)) = g.text m := by
  obtain ⟨hsize, hword⟩ := hdel.sized m hm
  have htext := h.text m hm
  have hlen : read64 mem (g.header m + 8) = (g.text m).length := by
    rw [← hword, ← htext, read64_ofList_bytes (by simpa using hsize)]
  rw [hlen, htext]

end Port
