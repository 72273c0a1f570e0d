import EglComet.AnalyseReq.Encode
import EglComet.AnalyseReq.PostData
import Mathlib.Data.List.GetD

/-!
Where the body of an HTTP reply begins. `analyse_post_data` looks for the last
line end of the whole reply, so the empty line behind the head is found only if
the body has no line end in it.
-/
namespace EglComet

open Protobuf

def crlf : Bytes := [0x0d, 0x0a]

/-- A line ends at index `i + 1`: the two bytes the scan compares. -/
def LineEnd (data : Bytes) (i : ℕ) : Prop := data.getD i 0 = 0x0d ∧ data.getD (i + 1) 0 = 0x0a

theorem scanStart_of_lineEnd {data : Bytes} {p : ℕ} (h : LineEnd data (p + 1)) :
    scanStart data (p + 2) = p + 2 := by
  rw [scanStart, if_neg]
  intro hne
  rcases hne with hne | hne
  · exact hne h.2
  · exact hne h.1

theorem scanStart_of_not_lineEnd {data : Bytes} {p : ℕ} (h : ¬ LineEnd data (p + 1)) :
    scanStart data (p + 2) = scanStart data (p + 1) := by
  rw [scanStart, if_pos]
  by_contra hne
  push Not at hne
  exact h ⟨hne.2, hne.1⟩

/-- The scan stops no earlier than at any line end below its start. -/
theorem le_scanStart {data : Bytes} {i p : ℕ} (h : LineEnd data i) (hi : 0 < i) (hp : i + 1 ≤ p) :
    i + 1 ≤ scanStart data p := by
  induction p with
  | zero => omega
  | succ p ih =>
    obtain ⟨q, rfl⟩ : ∃ q, p = q + 1 := ⟨p - 1, by omega⟩
    by_cases hend : LineEnd data (q + 1)
    · rw [scanStart_of_lineEnd hend]
      exact hp
    · have hne : i ≠ q + 1 := by
        intro heq
        exact hend (heq ▸ h)
      rw [scanStart_of_not_lineEnd hend]
      exact ih (by omega)

/-- The scan stops at a line end behind which there is none. -/
theorem scanStart_of_last {data : Bytes} {i p : ℕ} (h : LineEnd data i) (hi : 0 < i)
    (hp : i + 1 ≤ p) (hlast : ∀ j, i < j → j < p → ¬ LineEnd data j) :
    scanStart data p = i + 1 := by
  induction p with
  | zero => omega
  | succ p ih =>
    obtain ⟨q, rfl⟩ : ∃ q, p = q + 1 := ⟨p - 1, by omega⟩
    by_cases heq : i = q + 1
    · subst heq
      exact scanStart_of_lineEnd h
    · rw [scanStart_of_not_lineEnd (hlast (q + 1) (by omega) (by omega))]
      exact ih (by omega) fun j hj hlt => hlast j hj (by omega)

section Reply

variable (head body : Bytes)

theorem lineEnd_head : LineEnd (head ++ crlf ++ crlf ++ body) (head.length + 2) := by
  constructor <;> simp [crlf, Nat.add_assoc]

/-- Behind the empty line the line ends of the reply are those of the body. -/
theorem lineEnd_body (j : ℕ) :
    LineEnd (head ++ crlf ++ crlf ++ body) (head.length + 4 + j) ↔ LineEnd body j := by
  have hlen : (head ++ crlf ++ crlf).length = head.length + 4 := by simp [crlf]
  unfold LineEnd
  rw [List.getD_append_right _ _ _ _ (by omega), List.getD_append_right _ _ _ _ (by omega), hlen]
  have h0 : head.length + 4 + j - (head.length + 4) = j := by omega
  have h1 : head.length + 4 + j + 1 - (head.length + 4) = j + 1 := by omega
  rw [h0, h1]

theorem not_lineEnd_between : ¬ LineEnd (head ++ crlf ++ crlf ++ body) (head.length + 3) := by
  intro h
  have hlf : (head ++ crlf ++ crlf ++ body).getD (head.length + 3) 0 = 0x0a :=
    (lineEnd_head head body).2
  rw [h.1] at hlf
  exact absurd hlf (by decide)

end Reply

/-- A body has a line end exactly if the two bytes of one stand side by side in it. -/
theorem crlf_infix_iff (body : Bytes) : crlf <:+: body ↔ ∃ j, LineEnd body j := by
  constructor
  · intro h
    obtain ⟨before, after, rfl⟩ := h
    refine ⟨before.length, ?_⟩
    constructor <;> simp [crlf]
  · intro h
    obtain ⟨j, hcr, hlf⟩ := h
    have hj : j + 1 < body.length := by
      by_contra hge
      rw [List.getD_eq_default _ _ (by omega)] at hlf
      exact absurd hlf (by decide)
    refine ⟨body.take j, body.drop (j + 2), ?_⟩
    have hj' : j < body.length := by omega
    rw [List.getD_eq_getElem _ _ hj'] at hcr
    rw [List.getD_eq_getElem _ _ hj] at hlf
    have hdrop : body.drop j = crlf ++ body.drop (j + 2) := by
      rw [List.drop_eq_getElem_cons hj', List.drop_eq_getElem_cons hj, hcr, hlf]
      rfl
    calc body.take j ++ crlf ++ body.drop (j + 2) = body.take j ++ body.drop j := by
          rw [hdrop, List.append_assoc]
      _ = body := List.take_append_drop j body

/-- The bytes handed to the parser are the body of the reply exactly when the body has no line end
in it. -/
theorem post_body_exact_iff (head body : Bytes) :
    postBody (head ++ crlf ++ crlf ++ body) = body ↔ ¬ crlf <:+: body := by
  have hlen : (head ++ crlf ++ crlf ++ body).length = head.length + 4 + body.length := by
    simp [crlf]
    omega
  have hdrop : (head ++ crlf ++ crlf ++ body).drop (head.length + 4) = body := by
    rw [List.drop_append_of_le_length (by simp [crlf]), List.drop_eq_nil_of_le (by simp [crlf])]
    rfl
  have hbody : postBody (head ++ crlf ++ crlf ++ body) =
      (head ++ crlf ++ crlf ++ body).drop
        (scanStart (head ++ crlf ++ crlf ++ body) (head.length + 3 + body.length) + 1) := by
    rw [postBody, if_neg (by omega), hlen]
    have hpred : head.length + 4 + body.length - 1 = head.length + 3 + body.length := by omega
    rw [hpred]
  rw [hbody, crlf_infix_iff]
  constructor
  · intro h hend
    obtain ⟨j, hj⟩ := hend
    have hlt : j + 1 < body.length := by
      by_contra hge
      have hlf := hj.2
      rw [List.getD_eq_default _ _ (by omega)] at hlf
      exact absurd hlf (by decide)
    have hge := le_scanStart ((lineEnd_body head body j).mpr hj) (by omega)
      (show head.length + 4 + j + 1 ≤ head.length + 3 + body.length by omega)
    have hsize := congrArg List.length h
    rw [List.length_drop, hlen] at hsize
    omega
  · intro h
    rw [scanStart_of_last (lineEnd_head head body) (by omega) (by omega), hdrop]
    intro j hj hlt hend
    rcases Nat.lt_or_ge j (head.length + 4) with hb | hb
    · obtain rfl : j = head.length + 3 := by omega
      exact not_lineEnd_between head body hend
    · obtain ⟨k, rfl⟩ := Nat.exists_eq_add_of_le hb
      exact h ⟨k, (lineEnd_body head body k).mp hend⟩

/-- `HTTP/1.1 200 OK` before the empty line. -/
def okHead : Bytes := ascii "HTTP/1.1 200 OK"

/-- A reply packet whose message text ends a line, with one accepting parameter. -/
def twoLineBody : Bytes :=
  [0x08, 0x00, 0x10, 0x00, 0x1a, 0x02, 0x0d, 0x0a, 0x2a, 0x04, 0x08, 0x00, 0x12, 0x00]

/-- The parser is handed only what follows the message text. -/
theorem twoLineBody_cut :
    ¬ crlf ++ crlf <:+: okHead ∧ twoLineBody ≠ [] ∧
      (rspPacket.parseFromArray Wire.runtime twoLineBody).2 = true ∧
      postBody (okHead ++ crlf ++ crlf ++ twoLineBody) = [0x2a, 0x04, 0x08, 0x00, 0x12, 0x00] := by
  refine ⟨?_, by decide, by decide +kernel, by decide +kernel⟩
  intro h
  have hcr : 0x0d ∈ okHead := h.subset (by decide)
  exact absurd hcr (by decide +kernel)

/-- The bytes of a check result with this `rescode` and an empty message text. -/
def checkEntry (code : UInt8) : Bytes := [0x08, code, 0x12, 0x00]

/-- A reply packet with one parameter. -/
def checkBody (code : UInt8) : Bytes :=
  [0x08, 0x00, 0x10, 0x00, 0x1a, 0x00, 0x2a, 0x04] ++ checkEntry code

theorem params_checkBody :
    (rspPacket.parseFromArray Wire.runtime (checkBody 1)).1.params = [checkEntry 1] := by
  decide +kernel

theorem rescode_checkEntry :
    (rspCheck.parseFromArray Wire.runtime (checkEntry 1)).1.rescode = some 1 := by
  decide +kernel

/-- A body cut off inside the length of its only `params` entry. -/
def truncatedBody : Bytes := [0x2a, 0x05]

def truncatedReply : Bytes := okHead ++ crlf ++ crlf ++ truncatedBody

/-- A refusing reply packet whose message text is a line end and a granting `params` entry. -/
def disguisedBody : Bytes :=
  [0x08, 0x00, 0x10, 0x00, 0x1a, 0x08] ++ crlf ++ [0x2a, 0x04] ++ checkEntry 0 ++
    [0x2a, 0x04] ++ checkEntry 1

/-- Both decisions accept a reply with this body. -/
def AcceptedByBoth (body : Bytes) : Prop :=
  (analyseLoginData Wire.runtime (AnalyseReq.new false)
      (okHead ++ crlf ++ crlf ++ body)).1 = true ∧
    (analyseRelationData Wire.runtime (AnalyseReq.new false)
      (okHead ++ crlf ++ crlf ++ body)).1 = true

instance : DecidablePred AcceptedByBoth := fun _ => inferInstanceAs (Decidable (_ ∧ _))

end EglComet
