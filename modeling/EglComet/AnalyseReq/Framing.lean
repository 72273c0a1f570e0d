import EglComet.AnalyseReq.Data
import EglComet.Library.Loop
import EglComet.Library.MachineInt
import EglComet.Protobuf.WireFormat
import Mathlib.Tactic.SplitIfs

/-!
Framing of the client stream: the `evbuffer` calls of libevent 2.0.21,
`analyse_data` with its arrival checks, `analyse_pack`, and the loop of
`bufferevent_read_callback` that calls them. `int` sums wrap at 32 bits and
counts are converted to `size_t` where the source passes them to libevent.
-/
namespace EglComet

open Protobuf MachineInt

/-- `evbuffer_pullup`: a negative size asks for the whole buffer; zero and oversized requests
return null. The result is the linearised region. -/
def evbufferPullup (buf : Bytes) (size : ℤ) : Option Bytes :=
  let size := if size < 0 then (buf.length : ℤ) else size
  if size = 0 ∨ (buf.length : ℤ) < size then none else some (buf.take size.toNat)

def evbufferDrain (buf : Bytes) (len : ℕ) : Bytes := buf.drop len

/-- `evbuffer_remove`: the bytes copied out and the bytes left. -/
def evbufferRemove (buf : Bytes) (len : ℕ) : Bytes × Bytes := (buf.take len, buf.drop len)

/-- `evbuffer_remove_buffer`: the source and the destination afterwards. -/
def evbufferRemoveBuffer (src dst : Bytes) (len : ℕ) : Bytes × Bytes :=
  (src.drop len, dst ++ src.take len)

/-- The byte at an index known to be inside the bytes at hand. -/
def byteAt (bs : Bytes) (i : ℕ) : UInt8 := bs.getD i 0

/-- A byte read through a region's pointer; `mem` is whatever memory follows the region. -/
def peek (mem : ℕ → UInt8) (region : Bytes) (i : ℕ) : UInt8 := region.getD i (mem i)

def slice (mem : ℕ → UInt8) (region : Bytes) (off len : ℕ) : Bytes :=
  (List.range len).map fun i => peek mem region (off + i)

/-- The header length announced by the low nibble of the first byte. -/
def headLen (data : Bytes) : ℕ := (byteAt data 0 &&& 0x0F).toNat * 4

/-- The arguments of a call of `analyse_pack`. -/
structure PackCall where
  headLen : ℕ
  dataHeadLen : ℕ
  dataLen : ℤ
  deriving DecidableEq, Repr

/-- `pack_size`, a 32-bit sum. -/
def PackCall.packSize (c : PackCall) : ℤ := wrap32 (c.headLen + c.dataHeadLen + c.dataLen)

/-- The length fields of `analyse_data`: absent while they have not arrived. The four-byte length
is stored in an `int32_t`. -/
def dataHead (bufferSize : ℤ) (input : Bytes) : Option PackCall :=
  let h := headLen input
  if bufferSize > h + 5 then
    match evbufferPullup input (h + 5) with
    | none => none
    | some data =>
      if byteAt data (h + 3) = 0xFF ∧ byteAt data (h + 4) = 0x0 then
        if bufferSize > h + 9 then
          match evbufferPullup input (h + 9) with
          | none => none
          | some data => some ⟨h, 9, wrap32 (bigEndian ((data.drop (h + 5)).take 4))⟩
        else none
      else some ⟨h, 5, bigEndian ((data.drop (h + 3)).take 2)⟩
  else none

/-- The call of `analyse_pack` that `analyse_data` makes, if the frame has arrived. -/
def packCall (input : Bytes) : Option PackCall :=
  let bufferSize := wrap32 input.length
  (dataHead bufferSize input).filter fun c => bufferSize ≥ c.packSize

/-- What a call of `analyse_data` leaves: its result, the parser and both buffers. -/
structure Analysed where
  ret : Bool
  req : AnalyseReq
  input : Bytes
  output : Bytes

section Analyse

variable {σ : Type} (R : Runtime σ)

/-- The login record built from a payload; the result of the parse is not looked at. -/
def loginOf (data : Bytes) : LoginData :=
  let m := (c2sLogin.parseFromArray R data).1
  { id := UInt64.ofNat (m.id.getD 0 % 2 ^ 64).toNat, token := m.token.getD [] }

def analyseLoginPack (a : AnalyseReq) (data : Bytes) : Bool × AnalyseReq :=
  (true, { a with
    reqLogin := (c2sLogin.parseFromArray R data).1, loginData := some (loginOf R data) })

def propertyId (mem : ℕ → UInt8) (packBag : Bytes) (h : ℕ) : ℕ :=
  (peek mem packBag h).toNat * 256 + (peek mem packBag (h + 1)).toNat

/-- The record built from a relay frame; the two ids are big-endian at offsets 4 and 12. -/
def transOf (mem : ℕ → UInt8) (packBag : Bytes) (packSize : ℤ) (data : Bytes) : TransData where
  fromId := UInt64.ofNat (bigEndian (slice mem packBag 4 8))
  toId := UInt64.ofNat (bigEndian (slice mem packBag 12 8))
  dataSize := packSize
  data := data

/-- `analyse_pack`. It is absent where the code leaves its memory: with a negative `pack_size` the
block of a record is too small for its header, or `new` throws, and `evbuffer_remove` then copies
the whole buffer behind it; a negative `data_len` is no size that `ParseFromArray` can be given. -/
def analysePack (mem : ℕ → UInt8) (a : AnalyseReq) (input output : Bytes) (c : PackCall) :
    Option Analysed :=
  match evbufferPullup input c.packSize with
  | none => some ⟨false, a, input, output⟩
  | some packBag =>
    if peek mem packBag 1 &&& 0x40 ≠ 0 then
      if c.packSize < 0 then none
      else
        let r := evbufferRemove input (sizeT c.packSize)
        some ⟨true, { a with transData := some (transOf mem packBag c.packSize r.1) }, r.2, output⟩
    else
      let drained := evbufferDrain input (sizeT c.packSize)
      match propertyId mem packBag c.headLen with
      | 1 => some ⟨true, a, drained, output⟩
      | 10 =>
        if c.dataLen < 0 then none
        else
          let payload := slice mem packBag (c.headLen + c.dataHeadLen) c.dataLen.toNat
          let r := analyseLoginPack R a payload
          if !r.1 then some ⟨false, r.2, input, output⟩ else some ⟨true, r.2, drained, output⟩
      | 12 => some ⟨true, a, drained, output⟩
      | _ => some ⟨false, a, drained, output⟩

def analyseData (mem : ℕ → UInt8) (a : AnalyseReq) (input output : Bytes) : Option Analysed :=
  match evbufferPullup input 2 with
  | none => some ⟨false, a, input, output⟩
  | some data =>
    if byteAt data 1 &&& 0x20 ≠ 0 then
      let r := evbufferRemoveBuffer input output 4
      some ⟨true, { a with isHeart := true }, r.1, r.2⟩
    else
      match packCall input with
      | none => some ⟨false, a, input, output⟩
      | some c => analysePack R mem a input output c

theorem evbufferPullup_of_le {buf : Bytes} {size : ℤ} (h0 : 0 < size) (h1 : size ≤ buf.length) :
    evbufferPullup buf size = some (buf.take size.toNat) := by
  unfold evbufferPullup
  rw [if_neg (by omega : ¬ size < 0), if_neg (by omega)]

theorem evbufferPullup_some {buf region : Bytes} {size : ℤ}
    (h : evbufferPullup buf size = some region) :
    buf ≠ [] ∧ size ≠ 0 ∧ size ≤ buf.length := by
  unfold evbufferPullup at h
  simp only [Option.ite_none_left_eq_some, not_or] at h
  obtain ⟨⟨hz, hle⟩, -⟩ := h
  have hb : buf.length ≠ 0 := by
    intro hb
    split_ifs at hz hle <;> omega
  refine ⟨fun hb' => hb (by simp [hb']), ?_, ?_⟩ <;> split_ifs at hz hle <;> omega

/-- Removing `pack_size` bytes of a pulled-up frame always shortens the buffer: a negative size
becomes a count beyond every buffer. -/
theorem drop_sizeT_lt {buf region : Bytes} {c : PackCall}
    (h : evbufferPullup buf c.packSize = some region) :
    (buf.drop (sizeT c.packSize)).length < buf.length := by
  obtain ⟨hne, hz, hle⟩ := evbufferPullup_some h
  have hpos : 0 < buf.length := List.length_pos_iff.mpr hne
  have hr : -2 ^ 31 ≤ c.packSize ∧ c.packSize < 2 ^ 31 := wrap32_range _
  have hs : 0 < sizeT c.packSize := by
    rcases lt_or_ge c.packSize 0 with hn | hn
    · have := sizeT_of_neg hr.1 hn
      omega
    · rw [sizeT_of_nonneg hn (by omega)]
      omega
  rw [List.length_drop]
  omega

/-- The ways a call of `analyse_pack` can end. -/
inductive PackEnd (mem : ℕ → UInt8) (a : AnalyseReq) (input output : Bytes) (c : PackCall) :
    Analysed → Prop where
  | unread (hp : evbufferPullup input c.packSize = none) :
      PackEnd mem a input output c ⟨false, a, input, output⟩
  | relay {packBag : Bytes} (hp : evbufferPullup input c.packSize = some packBag)
      (hsize : 0 ≤ c.packSize) :
      PackEnd mem a input output c ⟨true, { a with
        transData := some (transOf mem packBag c.packSize (input.take (sizeT c.packSize))) },
        input.drop (sizeT c.packSize), output⟩
  | login {packBag : Bytes} (hp : evbufferPullup input c.packSize = some packBag)
      (payload : Bytes) :
      PackEnd mem a input output c
        ⟨true, (analyseLoginPack R a payload).2, input.drop (sizeT c.packSize), output⟩
  | property {packBag : Bytes} (hp : evbufferPullup input c.packSize = some packBag) (ret : Bool) :
      PackEnd mem a input output c ⟨ret, a, input.drop (sizeT c.packSize), output⟩

theorem analysePack_end {mem : ℕ → UInt8} {a : AnalyseReq} {input output : Bytes}
    {c : PackCall} {r : Analysed} (h : analysePack R mem a input output c = some r) :
    PackEnd R mem a input output c r := by
  unfold analysePack at h
  cases hp : evbufferPullup input c.packSize with
  | none =>
    obtain rfl : ⟨false, a, input, output⟩ = r := by simpa [hp] using h
    exact .unread hp
  | some packBag =>
    simp only [hp, analyseLoginPack, evbufferRemove, evbufferDrain, Bool.not_true,
      Bool.false_eq_true, ↓reduceIte] at h
    split at h
    · obtain ⟨hsize, rfl⟩ : 0 ≤ c.packSize ∧ _ = r := by simpa using h
      exact .relay hp hsize
    · split at h
      case h_2 =>
        obtain ⟨-, rfl⟩ : 0 ≤ c.dataLen ∧ _ = r := by simpa using h
        exact .login hp _
      all_goals
        obtain rfl := Option.some.inj h
        exact .property hp _

/-- A call of `analyse_pack` leaves the input alone and fails, or shortens it. -/
theorem analysePack_input {mem : ℕ → UInt8} {a : AnalyseReq} {input output : Bytes}
    {c : PackCall} {r : Analysed} (h : analysePack R mem a input output c = some r) :
    (r.ret = false ∧ r.input = input) ∨ r.input.length < input.length := by
  cases analysePack_end R h with
  | unread => exact Or.inl ⟨rfl, rfl⟩
  | relay hp _ | login hp _ | property hp _ => exact Or.inr (drop_sizeT_lt hp)

theorem analyseData_input {mem : ℕ → UInt8} {a : AnalyseReq} {input output : Bytes}
    {r : Analysed} (h : analyseData R mem a input output = some r) :
    (r.ret = false ∧ r.input = input) ∨ r.input.length < input.length := by
  unfold analyseData at h
  cases hp : evbufferPullup input 2 with
  | none =>
    obtain rfl : ⟨false, a, input, output⟩ = r := by simpa [hp] using h
    exact Or.inl ⟨rfl, rfl⟩
  | some data =>
    have hle := (evbufferPullup_some hp).2.2
    simp only [hp] at h
    split_ifs at h with hb
    · obtain rfl := Option.some.inj h
      right
      simp only [evbufferRemoveBuffer, List.length_drop]
      omega
    · cases hc : packCall input with
      | none =>
        obtain rfl : ⟨false, a, input, output⟩ = r := by simpa [hc] using h
        exact Or.inl ⟨rfl, rfl⟩
      | some c =>
        rw [hc] at h
        exact analysePack_input R h

/-- Every successful call of `analyse_data` consumes input. -/
theorem analyseData_shrinks {mem : ℕ → UInt8} {a : AnalyseReq} {input output : Bytes}
    {r : Analysed} (h : analyseData R mem a input output = some r) (hr : r.ret = true) :
    r.input.length < input.length := by
  rcases analyseData_input R h with ⟨hf, -⟩ | hlt
  · simp [hr] at hf
  · exact hlt

/-- `get_login_data`, `is_heart` and `get_trans_data` each reset what they return. -/
def AnalyseReq.handOver (a : AnalyseReq) : AnalyseReq :=
  { a with loginData := none, isHeart := false, transData := none }

/-- The `while (len > 3)` loop of `bufferevent_read_callback`. The body sees both buffers as they
were before the call of `analyse_data` and everything the call left. -/
def readLoop {τ : Type} (mem : ℕ → UInt8) (body : τ → Bytes → Bytes → Analysed → τ) (t : τ)
    (a : AnalyseReq) (input output : Bytes) : Option (τ × AnalyseReq × Bytes × Bytes) :=
  if input.length > 3 then
    match h : analyseData R mem a input output with
    | none => none
    | some r =>
      if hr : r.ret = true then
        readLoop mem body (body t input output r) r.req.handOver r.input r.output
      else some (t, r.req, r.input, r.output)
  else some (t, a, input, output)
termination_by input.length
decreasing_by exact analyseData_shrinks R h hr

/-- What every successful call and the last, failing one preserve holds after the loop. -/
theorem readLoop_rule {τ : Type} {mem : ℕ → UInt8} {body : τ → Bytes → Bytes → Analysed → τ}
    {P : τ → AnalyseReq → Bytes → Bytes → Prop}
    (hbody : ∀ t a input output r, P t a input output → 3 < input.length →
      analyseData R mem a input output = some r → r.ret = true →
        P (body t input output r) r.req.handOver r.input r.output)
    (hstop : ∀ t a input output r, P t a input output → analyseData R mem a input output = some r →
      r.ret ≠ true → P t r.req r.input r.output)
    {t : τ} {a : AnalyseReq} {input output : Bytes} {x : τ × AnalyseReq × Bytes × Bytes}
    (ht : P t a input output) (h : readLoop R mem body t a input output = some x) :
    P x.1 x.2.1 x.2.2.1 x.2.2.2 := by
  fun_induction readLoop R mem body t a input output with
  | case1 => simp at h
  | case2 t a input output hlen r hr hret ih =>
    exact ih (hbody t a input output r ht hlen hr hret) h
  | case3 t a input output hlen r hr hret =>
    obtain rfl := Option.some.inj h
    exact hstop t a input output r ht hr hret
  | case4 =>
    obtain rfl := Option.some.inj h
    exact ht

/-- What every turn of the loop preserves holds after it. -/
theorem readLoop_invariant {τ : Type} {mem : ℕ → UInt8} {body : τ → Bytes → Bytes → Analysed → τ}
    {P : τ → Prop} (hbody : ∀ t input output r, P t → P (body t input output r)) {t : τ}
    {a : AnalyseReq} {input output : Bytes} {x : τ × AnalyseReq × Bytes × Bytes} (ht : P t)
    (h : readLoop R mem body t a input output = some x) : P x.1 :=
  readLoop_rule R (P := fun t _ _ _ => P t)
    (fun t _ input output r hp _ _ _ => hbody t input output r hp) (fun _ _ _ _ _ hp _ _ => hp) ht h

/-- One turn of the `while (len > 3)` loop: again with what a successful call left, or out. -/
def readTurn {τ : Type} (mem : ℕ → UInt8) (body : τ → Bytes → Bytes → Analysed → τ) :
    τ × AnalyseReq × Bytes × Bytes →
      Option ((τ × AnalyseReq × Bytes × Bytes) ⊕ (τ × AnalyseReq × Bytes × Bytes))
  | (t, a, input, output) =>
    if input.length > 3 then
      match analyseData R mem a input output with
      | none => none
      | some r =>
        if r.ret then some (.inl (body t input output r, r.req.handOver, r.input, r.output))
        else some (.inr (t, r.req, r.input, r.output))
    else some (.inr (t, a, input, output))

/-- A turn that goes round again made a successful call, which shortened the input. -/
theorem readTurn_shrinks {τ : Type} {mem : ℕ → UInt8} {body : τ → Bytes → Bytes → Analysed → τ}
    {x y : τ × AnalyseReq × Bytes × Bytes} (h : readTurn R mem body x = some (.inl y)) :
    y.2.2.1.length < x.2.2.1.length := by
  obtain ⟨t, a, input, output⟩ := x
  simp only [readTurn] at h
  split_ifs at h with hlen
  · cases hr : analyseData R mem a input output with
    | none => simp [hr] at h
    | some r =>
      simp only [hr] at h
      split_ifs at h with hret
      · obtain rfl := Sum.inl.inj (Option.some.inj h)
        exact analyseData_shrinks R hr hret
      · simp at h
  · simp at h

theorem readLoop_turn {τ : Type} (mem : ℕ → UInt8) (body : τ → Bytes → Bytes → Analysed → τ)
    (x : τ × AnalyseReq × Bytes × Bytes) :
    readLoop R mem body x.1 x.2.1 x.2.2.1 x.2.2.2 = (readTurn R mem body x).bind
      (Sum.elim (fun y => readLoop R mem body y.1 y.2.1 y.2.2.1 y.2.2.2) some) := by
  obtain ⟨t, a, input, output⟩ := x
  rw [readLoop]
  by_cases hlen : input.length > 3
  · cases hr : analyseData R mem a input output with
    | none => simp [readTurn, hlen, hr]
    | some r =>
      cases hret : r.ret with
      | true => simp [readTurn, hlen, hr, hret]
      | false => simp [readTurn, hlen, hr, hret]
  · simp [readTurn, hlen]

end Analyse

/-- A frame with property id 1 whose declared length is -16 as an `int32_t`, so that `pack_size` is
negative. -/
def negativeFrame : Bytes :=
  [0x11, 0x00, 0x00, 0x00, 0x00, 0x01, 0x01, 0xFF, 0x00, 0xFF, 0xFF, 0xFF, 0xF0, 0x00]

end EglComet
