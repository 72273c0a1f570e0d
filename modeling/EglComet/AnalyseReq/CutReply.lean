import EglComet.AnalyseReq.PostBody
import EglComet.Protobuf.CutOff
import EglComet.Protobuf.Serialized

/-!
The beginning of a check reply. The verdict on it depends on where it ends: before
the first `params` entry it is refused, between the tag of the entry and the end
of its `rescode` it is accepted, and from there on it is that on the whole reply.
-/
namespace EglComet

open Protobuf

section Fields

variable {σ M α : Type} {R : Runtime σ} {unread : σ → Bytes} {fields : List (Protobuf.Field M)}
  {proj : M → α} (C : R.Conforms unread)

include C

theorem keeps_optInt32 (number : ℕ) (set : M → ℤ → M) (v : Option ℤ) (h0 : number ≠ 0)
    (h : number < 2 ^ 29) (hf : Selects fields (number * 8) (.int32 number set))
    (hset : ∀ m x, proj (set m x) = proj m) :
    Keeps R unread fields proj (optInt32 R number v) := by
  cases v with
  | none => exact C.keeps_nil
  | some x => exact C.keeps_int32 x h0 h hf hset

theorem keeps_optString (number : ℕ) (get : M → Option Bytes) (set : M → Option Bytes → M)
    (b : Option Bytes) (h : number < 15)
    (hf : Selects fields (number * 8 + 2) (singularString number get set))
    (hset : ∀ m x, proj (set m x) = proj m) (hlen : (optString R number b).length < 2 ^ 31) :
    Keeps R unread fields proj (optString R number b) := by
  cases b with
  | none => exact C.keeps_nil
  | some x =>
    have hx : x.length < 2 ^ 31 := by
      rw [optString, Option.map_some, Option.getD_some, C.length_string h] at hlen
      omega
    apply C.keeps_string (by omega) hf hx
    intro m y
    rw [hset, hset]

theorem keeps_repString (number : ℕ) (get : M → List Bytes) (set : M → List Bytes → M)
    (bs : List Bytes) (h : number < 15)
    (hf : Selects fields (number * 8 + 2) (repeatedString number get set))
    (hset : ∀ m x, proj (set m x) = proj m) (hlen : (repString R number bs).length < 2 ^ 31) :
    Keeps R unread fields proj (repString R number bs) := by
  induction bs with
  | nil => exact C.keeps_nil
  | cons b bs ih =>
    rw [repString_cons] at hlen ⊢
    rw [List.length_append, C.length_string h] at hlen
    refine Keeps.append (C.keeps_string (by omega) hf (by omega) fun m x => ?_) (ih (by omega))
    rw [hset, hset]

end Fields

section Params

variable {σ : Type} {R : Runtime σ}

/-- Only the field with the tag `*` touches the parameters, and it appends one. -/
theorem read_params {f : Protobuf.Field RspPacket} (hf : f ∈ rspPacket.fields) (m : RspPacket)
    (s : σ) :
    (f.read R m s).1.params = m.params ∨
      f.number * 8 + f.wireType = 0x2a ∧ ∃ b, (f.read R m s).1.params = m.params ++ [b] := by
  simp only [rspPacket, List.mem_cons, List.not_mem_nil, or_false] at hf
  rcases hf with rfl | rfl | rfl | rfl | rfl
  · refine Or.inl (Field.read_int32_keeps ?_ m s)
    exact fun _ _ => rfl
  · refine Or.inl (Field.read_int32_keeps ?_ m s)
    exact fun _ _ => rfl
  · exact Or.inl rfl
  · exact Or.inl rfl
  · exact Or.inr ⟨rfl, _, congrArg (· ++ [_]) List.dropLast_concat⟩

/-- A first parameter stays the first parameter. -/
theorem head_params_mergePartial {m : RspPacket} {e : Bytes} (s : σ)
    (hm : m.params.head? = some e) :
    (mergePartial R rspPacket.fields m s).1.params.head? = some e := by
  refine mergePartial_keeps (P := fun m : RspPacket => m.params.head? = some e)
    (fun f hf m s hm => ?_) s hm
  rcases read_params (R := R) hf m s with h | ⟨-, b, h⟩
  · rw [h, hm]
  · rw [h, List.head?_append, hm]
    rfl

end Params

/-- A complete reply of the account service: a head of ASCII characters without `*`, the empty line,
and a `RspPacket` without a line end in it, as the generated code writes one; its parameters are
check results. -/
structure CheckReply {σ : Type} (R : Runtime σ) where
  head : Bytes
  packet : RspPacket
  checks : List RspCheck
  head_plain : ∀ b ∈ head, b.toNat < 128 ∧ b ≠ 0x2a
  packet_params : packet.params = checks.map (RspCheck.serialize R)
  rescode_int32 : ∀ c ∈ checks, Int32Range c.rescode
  body_short : (packet.serialize R).length < 2 ^ 31
  body_line : ¬ crlf <:+: packet.serialize R

namespace CheckReply

variable {σ : Type} {R : Runtime σ} {unread : σ → Bytes} (r : CheckReply R)

def body : Bytes := r.packet.serialize R

def bytes : Bytes := r.head ++ crlf ++ crlf ++ r.body

/-- What precedes the parameters in the body. -/
def before : Bytes := { r.packet with params := [] }.serialize R

/-- Where in the body the `rescode` of its first parameter ends: the message text behind it is the
rest of the entry. -/
def rescodeEnd (c : RspCheck) : ℕ :=
  r.before.length + (R.writeString 5 (c.serialize R)).length - (optString R 2 c.resmsg).length

/-- How much of the body has to be there for the verdict on the whole reply: of a grant the tag of
the first parameter, of a refusal nothing of this parameter or its `rescode`. -/
def Decided (n : ℕ) : Prop :=
  ∀ c ∈ r.checks.head?, if c.rescode.getD 0 = 0 then r.before.length < n
    else n ≤ r.before.length ∨ r.rescodeEnd c ≤ n

theorem body_eq : r.body = r.before ++ repString R 5 (r.checks.map (RspCheck.serialize R)) := by
  rw [body, before, RspPacket.serialize, RspPacket.serialize, r.packet_params]
  exact congrArg (· ++ _) (List.append_nil _).symm

theorem entry_le {c : RspCheck} (hc : c ∈ r.checks.head?) :
    r.before.length + (R.writeString 5 (c.serialize R)).length ≤ r.body.length := by
  obtain ⟨cs, hcs⟩ : ∃ cs, r.checks = c :: cs := List.head?_eq_some_iff.mp hc
  rw [body_eq, hcs, List.length_append]
  simp [repString]

variable (C : R.Conforms unread)

include C

theorem keeps_before : Keeps R unread rspPacket.fields RspPacket.params r.before := by
  have hlen : r.before.length < 2 ^ 31 := by
    have h := r.body_short
    rw [← body, body_eq, List.length_append] at h
    omega
  simp only [before, RspPacket.serialize, List.length_append] at hlen
  refine Keeps.append (Keeps.append (Keeps.append (Keeps.append ?_ ?_) ?_) ?_) C.keeps_nil
  · exact keeps_optInt32 C 1 _ _ (by decide) (by decide) rfl fun _ _ => rfl
  · exact keeps_optInt32 C 2 _ _ (by decide) (by decide) rfl fun _ _ => rfl
  · exact keeps_optString C 3 _ _ r.packet.resmsg (by decide) rfl (fun _ _ => rfl) (by omega)
  · exact keeps_repString C 4 _ _ r.packet.action (by decide) rfl (fun _ _ => rfl) (by omega)

omit r in
/-- The first of the parameters of which only the beginning is there. -/
theorem head_params_cut {b : Bytes} {bs : List Bytes} {q : Bytes} {m : RspPacket} {s : σ}
    (hm : m.params = []) (hb : b.length < 2 ^ 31) (hq : q <+: repString R 5 (b :: bs)) (h0 : q ≠ [])
    (hs : unread s = q) :
    (mergePartial R rspPacket.fields m s).1.params.head? =
      some (b.take (q.length - ((R.writeString 5 b).length - b.length))) := by
  have hsel : Selects rspPacket.fields (5 * 8 + 2)
      (repeatedString 5 RspPacket.params fun m b => { m with params := b }) := rfl
  rw [repString_cons] at hq
  rcases prefix_append_cases hq with ⟨hpre, hne⟩ | ⟨q', rfl, -⟩
  · rw [C.merge_string_cut (by decide) hsel hb (by simp) h0 hpre hne hs]
    simp [hm]
  · have hwrite := C.length_string (show 5 < 15 by decide) b
    obtain ⟨t, -, hread⟩ := C.reads_string (by decide) hsel hb m s q' hs
    rw [hread, List.take_of_length_le (by rw [List.length_append]; omega)]
    apply head_params_mergePartial
    simp [hm]

/-- The first parameter of a body of which only the beginning is there. -/
theorem params_head {p : Bytes} (hp : p <+: r.body) :
    (rspPacket.parseFromArray R p).1.params.head? =
      if p.length ≤ r.before.length then none
      else r.checks.head?.map fun c => (c.serialize R).take
        (p.length - (r.before.length +
          ((R.writeString 5 (c.serialize R)).length - (c.serialize R).length))) := by
  have hs : unread (R.ofArray p) = p := C.unread_ofArray p
  have hshort := r.body_short
  rw [← body] at hshort
  rw [body_eq] at hp hshort
  simp only [MessageType.parseFromArray]
  split_ifs with hle
  · have hbefore : p <+: r.before :=
      List.prefix_of_prefix_length_le hp (List.prefix_append _ _) hle
    rw [(r.keeps_before C).cut p hbefore _ _ hs]
    rfl
  · obtain ⟨q, rfl, hq⟩ : ∃ q, p = r.before ++ q ∧
        q <+: repString R 5 (r.checks.map (RspCheck.serialize R)) := by
      rcases prefix_append_cases hp with ⟨hpre, -⟩ | hq
      · exact absurd hpre.length_le hle
      · exact hq
    obtain ⟨m, t, ht, hm, heq⟩ := (r.keeps_before C).whole rspPacket.empty _ q hs
    have hq0 : q ≠ [] := by
      rintro rfl
      simp at hle
    rw [heq]
    cases hc : r.checks with
    | nil =>
      rw [hc] at hq
      exact absurd (List.prefix_nil.mp hq) hq0
    | cons c cs =>
      rw [hc] at hq hshort
      rw [List.map_cons] at hq hshort
      have hlen : (c.serialize R).length < 2 ^ 31 := by
        rw [repString_cons] at hshort
        simp only [List.length_append, C.length_string (show 5 < 15 by decide)] at hshort
        omega
      rw [head_params_cut C hm hlen hq hq0 ht, List.length_append, List.head?_cons,
        Option.map_some, Nat.add_sub_add_left]

omit r in
/-- The `rescode` of an entry of which only the beginning is there. -/
theorem rescode_take {c : RspCheck} (hc : Int32Range c.rescode)
    (hlen : (c.serialize R).length < 2 ^ 31) (i : ℕ) :
    (rspCheck.parseFromArray R ((c.serialize R).take i)).1.rescode =
      if (optInt32 R 1 c.rescode).length ≤ i then c.rescode else none := by
  have hs := C.unread_ofArray ((c.serialize R).take i)
  have hser : c.serialize R = optInt32 R 1 c.rescode ++ optString R 2 c.resmsg := rfl
  have hkeep : Keeps R unread rspCheck.fields RspCheck.rescode (optString R 2 c.resmsg) := by
    rw [hser, List.length_append] at hlen
    exact keeps_optString C 2 _ _ _ (by decide) rfl (fun _ _ => rfl) (by omega)
  have hsel : Selects rspCheck.fields (1 * 8) (.int32 1 fun m v => { m with rescode := some v }) :=
    rfl
  simp only [MessageType.parseFromArray]
  generalize R.ofArray ((c.serialize R).take i) = s at hs
  rw [hser, List.take_append] at hs
  split_ifs with hi
  · rw [List.take_of_length_le hi] at hs
    cases hcode : c.rescode with
    | none =>
      rw [hcode] at hs
      exact hkeep.cut _ (List.take_prefix _ _) _ s hs
    | some v =>
      rw [hcode] at hs
      obtain ⟨t, ht, hread⟩ := C.reads_int32 (by decide) (by decide) hsel (hc v hcode)
        rspCheck.empty s _ hs
      rw [hread, hkeep.cut _ (List.take_prefix _ _) _ t ht]
  · cases hcode : c.rescode with
    | none => simp [hcode, optInt32] at hi
    | some v =>
      rw [hcode] at hs hi
      rw [Nat.sub_eq_zero_of_le (by omega), List.take_zero, List.append_nil] at hs
      have hne : (optInt32 R 1 (some v)).take i ≠ R.writeInt32 1 v := by
        intro heq
        have hl := congrArg List.length heq
        rw [List.length_take] at hl
        exact hi (hl ▸ Nat.min_le_left _ _)
      rw [C.merge_int32_cut (by decide) (by decide) hsel (List.take_prefix _ _) hne hs]
      rfl

theorem acceptsCheck_body_iff {data p : Bytes} (hp : p <+: r.body) (hdata : postBody data = p) :
    AcceptsCheck R rspCheck data ↔
      ∃ c ∈ r.checks.head?, r.before.length < p.length ∧
        (c.rescode.getD 0 = 0 ∨ p.length < r.rescodeEnd c) := by
  rw [acceptsCheck_iff_head, hdata, r.params_head C hp]
  cases hc : r.checks.head? with
  | none => simp
  | some c =>
    have hle := r.entry_le hc
    have hshort : r.body.length < 2 ^ 31 := r.body_short
    have hwrite := C.length_string (show 5 < 15 by decide) (c.serialize R)
    have hser : (c.serialize R).length =
        (optInt32 R 1 c.rescode).length + (optString R 2 c.resmsg).length := List.length_append
    have hcode := rescode_take C (r.rescode_int32 c (List.mem_of_head? hc)) (by omega)
    simp only [Option.map_some, Option.mem_some_iff, exists_eq_left', rescodeEnd]
    by_cases hlow : p.length ≤ r.before.length
    · simp [hlow]
    · simp only [if_neg hlow, Option.mem_some_iff, exists_eq_left', hcode,
        Nat.lt_of_not_le hlow, true_and]
      cases hv : c.rescode with
      | none => simp
      | some v =>
        have hpos : 0 < (optInt32 R 1 (some v)).length := by
          simp [optInt32, C.int32, Wire.length_writeInt]
        rw [hv] at hser
        split_ifs with hin
        · simp
          omega
        · simp
          omega

/-- A beginning of the head is never accepted. -/
theorem not_acceptsCheck_head {first : Bytes} (hp : first <+: r.head ++ crlf ++ crlf) :
    ¬ AcceptsCheck R rspCheck first := by
  have hcrlf : ∀ b ∈ crlf, b.toNat < 128 ∧ b.toNat ≠ 0x2a := by simp [crlf]
  have hplain : ∀ b ∈ postBody first, b.toNat < 128 ∧ b.toNat ≠ 0x2a := by
    intro b hb
    have hmem : b ∈ r.head ++ crlf ++ crlf := hp.subset ((postBody_suffix first).subset hb)
    simp only [List.mem_append, or_assoc, or_self] at hmem
    rcases hmem with hmem | hmem
    · exact ⟨(r.head_plain b hmem).1, fun h => (r.head_plain b hmem).2 (UInt8.toNat_inj.mp h)⟩
    · exact hcrlf b hmem
  have hnil : (rspPacket.parseFromArray R (postBody first)).1.params =
      RspPacket.params rspPacket.empty := by
    refine C.merge_absent 0x2a (fun f hf htag m s => ?_) ?_
    · rcases read_params (R := R) hf m s with h | ⟨h, -⟩
      · exact h
      · exact absurd h htag
    · rw [C.unread_ofArray]
      exact hplain
  rintro ⟨p, ps, h, -⟩
  exact List.cons_ne_nil p ps (h.symm.trans hnil)

/-- The verdict on a beginning of the reply, by how much of the body is in it. -/
theorem acceptsCheck_prefix_iff {first : Bytes} (hp : first <+: r.bytes) :
    AcceptsCheck R rspCheck first ↔
      ∃ c ∈ r.checks.head?, r.before.length < first.length - (r.head.length + 4) ∧
        (c.rescode.getD 0 = 0 ∨ first.length - (r.head.length + 4) < r.rescodeEnd c) := by
  rcases prefix_append_cases hp with ⟨hpre, -⟩ | ⟨p, rfl, hbody⟩
  · have hlen : first.length ≤ r.head.length + 4 := by simpa [crlf] using hpre.length_le
    apply iff_of_false (r.not_acceptsCheck_head C hpre)
    rintro ⟨c, -, hlt, -⟩
    omega
  · have hpost : postBody (r.head ++ crlf ++ crlf ++ p) = p := by
      rw [post_body_exact_iff]
      exact fun h => r.body_line (h.trans hbody.isInfix)
    have hlen : (r.head ++ crlf ++ crlf ++ p).length - (r.head.length + 4) = p.length := by
      simp [crlf]
      omega
    rw [r.acceptsCheck_body_iff C hbody hpost, hlen]

/-- The verdict on a beginning is that on the whole reply exactly if enough of the body, or little
enough, is in it. -/
theorem acceptsCheck_prefix_eq_iff {first : Bytes} (hp : first <+: r.bytes) :
    (AcceptsCheck R rspCheck first ↔ AcceptsCheck R rspCheck r.bytes) ↔
      r.Decided (first.length - (r.head.length + 4)) := by
  rw [r.acceptsCheck_prefix_iff C hp, r.acceptsCheck_prefix_iff C (List.prefix_refl _)]
  have hlen : r.bytes.length - (r.head.length + 4) = r.body.length := by
    simp [bytes, crlf]
    omega
  rw [hlen]
  generalize first.length - (r.head.length + 4) = n
  unfold Decided
  cases hc : r.checks.head? with
  | none => simp
  | some c =>
    have hle := r.entry_le hc
    have hpos : 0 < (R.writeString 5 (c.serialize R)).length := by
      rw [C.length_string (by decide)]
      omega
    have hend : ¬ r.body.length < r.rescodeEnd c := by
      rw [rescodeEnd]
      omega
    have hbegun : r.before.length < r.body.length := by omega
    simp only [Option.mem_some_iff, exists_eq_left', forall_eq', hbegun, hend]
    split_ifs with hzero
    · simp [hzero]
    · simp only [hzero, false_or, or_false, and_false, iff_false, not_and]
      omega

end CheckReply

end EglComet
