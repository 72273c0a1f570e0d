import EglComet.Library.Refinement
import EglComet.Libevent.EvbufferBytes

/-!
The two buffers of a socket's `bufferevent`. The event loop reads into the input
and writes from the output, the callbacks pull up, remove and drain at the front
of the input and add at the end of the output; the buffers are frozen against
everything else. Any such use is a use of two flat byte queues.
-/
namespace EglComet

open Protobuf

/-- The buffers of `struct bufferevent`. -/
structure Bufferevent where
  input : Evbuffer := {}
  output : Evbuffer := {}

/-- The calls made on them. `readcb` is `bufferevent_readcb` when `ioctl` finds the bytes
`first :: rest` on the socket, and `writecb` is `bufferevent_writecb` with the result of
`writev`. -/
inductive BufferCall where
  | readcb (first : UInt8) (rest : Bytes)
  | writecb (writev : Option ℕ)
  | pullup (size : ℤ)
  | drain (len : ℕ)
  | remove (len : ℕ)
  | removeBuffer (len : ℕ)
  | add (data : Bytes)

namespace Bufferevent

/-- `bufferevent_readcb` up to the user's callback: there is no high watermark, and `evbuffer_read`
is asked for `MAX_TO_READ_EVER` bytes. -/
def readcb (mem : Malloc) (bev : Bufferevent) (queued : Bytes) : Option (ℤ × Bufferevent) :=
  (bev.input.read mem queued.length 16384 (some queued)).map fun r =>
    (r.1, { bev with input := r.2 })

/-- `bufferevent_writecb`: the bytes that go out, `MAX_TO_WRITE_EVER` at most. -/
def writecb (bev : Bufferevent) (writev : Option ℕ) : Bytes × Bufferevent :=
  if bev.output.totalLen ≠ 0 then
    let r := bev.output.writeAtmost 16384 writev
    (r.1, { bev with output := r.2 })
  else ([], bev)

/-- A call with the memory that `malloc` returns in it, and the bytes that its caller sees. -/
def call (bev : Bufferevent) : BufferCall × (ℕ → UInt8) → Option (Bufferevent × Option Bytes)
  | (.readcb first rest, mem) =>
    (bev.readcb (some mem) (first :: rest)).map fun r =>
      (r.2, some ((first :: rest).take r.1.toNat))
  | (.writecb writev, _) =>
    let r := bev.writecb writev
    some (r.2, some r.1)
  | (.pullup size, mem) =>
    let r := bev.input.pullup (some mem) size
    let len := if size < 0 then (bev.input.totalLen : ℤ) else size
    some ({ bev with input := r.2 }, r.1.map fun c => c.data.take len.toNat)
  | (.drain len, _) => some ({ bev with input := bev.input.drain len }, some [])
  | (.remove len, _) =>
    let r := bev.input.remove len
    some ({ bev with input := r.2 }, some r.1)
  | (.removeBuffer len, mem) =>
    (bev.input.removeBuffer (some mem) bev.output len).map fun r => (⟨r.1, r.2⟩, some [])
  | (.add data, mem) =>
    (bev.output.add (some mem) data).map fun r => ({ bev with output := r.2 }, some [])

/-- The bytes in the two buffers. -/
def bytes (bev : Bufferevent) : Bytes × Bytes := (bev.input.contents, bev.output.contents)

/-- What the calls do to two flat queues. A write takes bytes off the front of the output, and some
if the socket takes any. -/
inductive Flat :
    Bytes × Bytes → BufferCall × (ℕ → UInt8) → Option Bytes → Bytes × Bytes → Prop where
  | readcb {input output : Bytes} {first : UInt8} {rest : Bytes} {mem : ℕ → UInt8} :
      Flat (input, output) (.readcb first rest, mem) (some ((first :: rest).take 4096))
        (input ++ (first :: rest).take 4096, output)
  | writecb {input written output : Bytes} {writev : Option ℕ} {mem : ℕ → UInt8}
      (progress : written ++ output ≠ [] → (∃ n, writev = some (n + 1)) → written ≠ []) :
      Flat (input, written ++ output) (.writecb writev, mem) (some written) (input, output)
  | pullup {input output : Bytes} {size : ℤ} {mem : ℕ → UInt8} :
      Flat (input, output) (.pullup size, mem) (evbufferPullup input size) (input, output)
  | drain {input output : Bytes} {len : ℕ} {mem : ℕ → UInt8} :
      Flat (input, output) (.drain len, mem) (some []) (evbufferDrain input len, output)
  | remove {input output : Bytes} {len : ℕ} {mem : ℕ → UInt8} :
      Flat (input, output) (.remove len, mem) (some (evbufferRemove input len).1)
        ((evbufferRemove input len).2, output)
  | removeBuffer {input output : Bytes} {len : ℕ} {mem : ℕ → UInt8} :
      Flat (input, output) (.removeBuffer len, mem) (some [])
        (evbufferRemoveBuffer input output len)
  | add {input output data : Bytes} {mem : ℕ → UInt8} :
      Flat (input, output) (.add data, mem) (some []) (input, output ++ data)

/-- Neither buffer has a vacant chain beside chains with data. -/
def Tight (bev : Bufferevent) : Prop := bev.input.Tight ∧ bev.output.Tight

theorem readSize_readcb (first : UInt8) (rest : Bytes) :
    Evbuffer.readSize (first :: rest).length 16384 = min 4096 (first :: rest).length := by
  simp only [Evbuffer.readSize, List.length_cons]
  split_ifs <;> omega

theorem Tight.readcb {bev : Bufferevent} (h : bev.Tight) (mem : ℕ → UInt8) (first : UInt8)
    (rest : Bytes) :
    ∃ input n, bev.readcb (some mem) (first :: rest) = some (n, { bev with input := input }) ∧
      input.Tight ∧ input.contents = bev.input.contents ++ (first :: rest).take 4096 ∧
      (first :: rest).take n.toNat = (first :: rest).take 4096 ∧
      (first :: rest).drop n.toNat = (first :: rest).drop 4096 := by
  have hsize := readSize_readcb first rest
  obtain ⟨input, hread, ht, hc⟩ := h.1.read mem (by decide : (16384 : ℤ) ≠ 0)
    (show Evbuffer.readSize (first :: rest).length 16384 ≤ (first :: rest).length by omega)
  have htake : (first :: rest).take (Evbuffer.readSize (first :: rest).length 16384) =
      (first :: rest).take 4096 := by
    rw [hsize, ← List.take_eq_take_min]
  have hdrop : (first :: rest).drop (Evbuffer.readSize (first :: rest).length 16384) =
      (first :: rest).drop 4096 := by
    rw [hsize]
    rcases Nat.le_total 4096 (first :: rest).length with hle | hle
    · rw [Nat.min_eq_left hle]
    · rw [Nat.min_eq_right hle, List.drop_length, List.drop_of_length_le hle]
  refine ⟨input, (Evbuffer.readSize (first :: rest).length 16384 : ℤ), ?_, ht, htake ▸ hc, ?_, ?_⟩
  · rw [Bufferevent.readcb, hread, Option.map_some]
  · rw [Int.toNat_natCast, htake]
  · rw [Int.toNat_natCast, hdrop]

/-- If the socket takes a byte, one goes out: the first chain has data. -/
theorem writeAtmost_ne_nil {b : Evbuffer} (h : b.Tight) (hne : b.contents ≠ []) (n : ℕ) :
    (b.writeAtmost 16384 (some (n + 1))).1 ≠ [] := by
  have htotal : b.totalLen ≠ 0 := by
    rw [← h.filled.length_contents]
    exact Nat.ne_of_gt (List.length_pos_iff.mpr hne)
  obtain ⟨fs, hs, hfs⟩ := h.shape_of_ne htotal
  obtain ⟨c, cs, rfl⟩ := List.exists_cons_of_ne_nil hfs
  have hoff : c.off ≠ 0 := hs.full c List.mem_cons_self
  have hdata : c.data ≠ [] := (Window.data_eq_nil_iff c).not.mpr hoff
  have hvec (m : ℕ) (hm : m ≠ 0) : (Evbuffer.iovecs 128 m b.chains).flatten ≠ [] := by
    rw [hs.chains, List.cons_append, Evbuffer.iovecs, if_neg hm]
    split_ifs with hle
    · rw [List.flatten_cons]
      exact fun hnil => hdata (List.append_eq_nil_iff.mp hnil).1
    · simp [hm, hdata]
  simp only [Evbuffer.writeAtmost, Option.getD_some, ne_eq, List.take_eq_nil_iff, not_or]
  refine ⟨Nat.succ_ne_zero n, hvec _ ?_⟩
  split_ifs <;> omega

theorem Tight.writecb {bev : Bufferevent} (h : bev.Tight) (writev : Option ℕ) :
    ∃ written output, bev.writecb writev = (written, { bev with output := output }) ∧
      output.Tight ∧ written ++ output.contents = bev.output.contents ∧
      (written ++ output.contents ≠ [] → (∃ n, writev = some (n + 1)) → written ≠ []) := by
  unfold Bufferevent.writecb
  split_ifs with hzero
  · obtain ⟨hbytes, hkeep⟩ := h.2.filled.writeAtmost 16384 writev
    refine ⟨_, _, rfl, h.2.of_keepsVacant hkeep, hbytes, ?_⟩
    rintro hne ⟨n, rfl⟩
    rw [hbytes] at hne
    exact writeAtmost_ne_nil h.2 hne n
  · have hnil : bev.output.contents = [] := by
      rw [← List.length_eq_zero_iff, h.2.filled.length_contents]
      exact not_not.mp hzero
    exact ⟨[], bev.output, rfl, h.2, rfl, fun hne => absurd hnil hne⟩

theorem length_region {b : Evbuffer} (h : b.Filled) {size : ℤ} {region : Bytes}
    (hr : evbufferPullup b.contents size = some region) :
    region.length = (if size < 0 then (b.totalLen : ℤ) else size).toNat := by
  unfold evbufferPullup at hr
  rw [h.length_contents] at hr
  simp only [Option.ite_none_left_eq_some, Option.some.injEq, not_or] at hr
  obtain ⟨⟨-, hle⟩, rfl⟩ := hr
  rw [List.length_take, h.length_contents]
  omega

/-- Every call goes through and acts on the bytes as on two flat queues. -/
theorem Tight.call {bev : Bufferevent} (h : bev.Tight) (e : BufferCall × (ℕ → UInt8)) :
    ∃ bev' answer, bev.call e = some (bev', answer) ∧ bev'.Tight ∧
      Flat bev.bytes e answer bev'.bytes := by
  obtain ⟨hin, hout⟩ := h
  obtain ⟨c, mem⟩ := e
  cases c with
  | readcb first rest =>
    obtain ⟨input, n, heq, ht, hc, htake, -⟩ := Tight.readcb ⟨hin, hout⟩ mem first rest
    refine ⟨{ bev with input := input }, some ((first :: rest).take n.toNat), ?_, ⟨ht, hout⟩, ?_⟩
    · rw [Bufferevent.call, heq, Option.map_some]
    · rw [htake, bytes, bytes, hc]
      exact .readcb
  | writecb writev =>
    obtain ⟨written, output, heq, ht, hbytes, hprogress⟩ := Tight.writecb ⟨hin, hout⟩ writev
    refine ⟨{ bev with output := output }, some written, ?_, ⟨hin, ht⟩, ?_⟩
    · rw [Bufferevent.call, heq]
    · rw [bytes, bytes, ← hbytes]
      exact .writecb hprogress
  | pullup size =>
    obtain ⟨hc, hkeep, hres⟩ := hin.filled.pullup mem size
    refine ⟨_, _, rfl, ⟨hin.of_keepsVacant hkeep, hout⟩, ?_⟩
    have hanswer : (bev.input.pullup (some mem) size).1.map (fun c => c.data.take
        (if size < 0 then (bev.input.totalLen : ℤ) else size).toNat) =
        evbufferPullup bev.input.contents size := by
      rcases hres with ⟨hflat, hnone⟩ | ⟨region, c, hflat, hsome, hpre⟩
      · rw [hflat, hnone, Option.map_none]
      · rw [hflat, hsome, Option.map_some, ← length_region hin.filled hflat]
        exact congrArg some (List.prefix_iff_eq_take.mp hpre).symm
    simp only [hanswer, bytes, hc]
    exact .pullup
  | drain len =>
    refine ⟨_, _, rfl, ⟨hin.of_keepsVacant (Evbuffer.drain_keepsVacant _ len), hout⟩, ?_⟩
    simp only [bytes, hin.filled.contents_drain]
    exact .drain
  | remove len =>
    obtain ⟨hb, hc, hkeep⟩ := hin.filled.remove len
    refine ⟨_, _, rfl, ⟨hin.of_keepsVacant hkeep, hout⟩, ?_⟩
    simp only [bytes, hb, hc]
    exact .remove
  | removeBuffer len =>
    obtain ⟨src, dst, heq, hs, hd, hsc, hdc⟩ := hin.removeBuffer hout mem len
    refine ⟨⟨src, dst⟩, some [], by rw [Bufferevent.call, heq, Option.map_some], ⟨hs, hd⟩, ?_⟩
    simp only [bytes, hsc, hdc]
    exact .removeBuffer
  | add data =>
    obtain ⟨out, heq, ht, hc⟩ := hout.add mem data
    refine ⟨{ bev with output := out }, some [], by rw [Bufferevent.call, heq, Option.map_some],
      ⟨hin, ht⟩, ?_⟩
    simp only [bytes, hc]
    exact .add

theorem tight_new : ({} : Bufferevent).Tight :=
  ⟨Evbuffer.shape_empty.tight, Evbuffer.shape_empty.tight⟩

end Bufferevent

end EglComet
