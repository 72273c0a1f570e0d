import EglComet.AnalyseReq.PostBody
import EglComet.Library.Loop

/-!
The backward scan of `analyse_post_data`, turn by turn, with every index of
`data` that it reads. The condition of its loop looks at two bytes before it
compares the position with its lower bound, so a reply of a single line feed
makes it look at the byte in front of the array.
-/
namespace EglComet

open Protobuf

/-- A `char` of an array at any index; `mem` is whatever memory lies around the array. -/
def charAt (mem : ℤ → UInt8) (data : Bytes) (i : ℤ) : UInt8 :=
  if 0 ≤ i ∧ i < data.length then byteAt data i.toNat else mem i

/-- The scan before a test of its condition: the indices read so far, and `start_pos`. -/
structure Scan where
  reads : List ℤ
  startPos : ℤ
  deriving DecidableEq, Repr

/-- The arguments of `ParseFromArray` after the scan, as an offset into `data` and a size. -/
def Scan.bodyStart (s : Scan) : ℤ := s.startPos + 1

def Scan.bodySize (s : Scan) (endPos : ℤ) : ℤ := endPos - s.startPos - 1

/-- The condition of the loop, evaluated from left to right: its value, and the indices it reads. -/
def scanTest (mem : ℤ → UInt8) (data : Bytes) (startPos : ℤ) : Bool × List ℤ :=
  if charAt mem data startPos ≠ 0x0a then (decide (startPos > 1), [startPos])
  else if charAt mem data (startPos - 1) ≠ 0x0d then
    (decide (startPos > 1), [startPos, startPos - 1])
  else (false, [startPos, startPos - 1])

/-- One turn of the loop. `len` is an `int`, so that no position leaves the range of one. -/
def scanTurn (mem : ℤ → UInt8) (data : Bytes) (s : Scan) : Option (Scan ⊕ Scan) :=
  let r := scanTest mem data s.startPos
  let reads := s.reads ++ r.2
  if r.1 then some (.inl ⟨reads, s.startPos - 1⟩) else some (.inr ⟨reads, s.startPos⟩)

/-- The scan as the call begins it: `start_pos` is the last index. -/
def Scan.first (data : Bytes) : Scan := ⟨[], data.length - 1⟩

/-- The index is one of a received byte. -/
def Received (data : Bytes) (i : ℤ) : Prop := 0 ≤ i ∧ i < data.length

section Test

variable {mem : ℤ → UInt8} {data : Bytes} {p : ℕ}

theorem charAt_received (h : p < data.length) : charAt mem data p = data.getD p 0 := by
  rw [charAt, if_pos ⟨by omega, by omega⟩, Int.toNat_natCast, byteAt]

/-- Above the first byte a test reads received bytes only. -/
theorem scanTest_received (h0 : 0 < p) (h : p < data.length) :
    ∀ i ∈ (scanTest mem data p).2, Received data i := by
  have hhere : Received data p := ⟨by omega, by omega⟩
  have hbefore : Received data (p - 1) := ⟨by omega, by omega⟩
  unfold scanTest
  split_ifs <;> simp [hhere, hbefore]

/-- At the first byte a test reads in front of the array if that byte is a line feed. -/
theorem scanTest_zero_received (h : 0 < data.length) :
    (∀ i ∈ (scanTest mem data (0 : ℕ)).2, Received data i) ↔ data.getD 0 0 ≠ 0x0a := by
  have hhere : Received data (0 : ℕ) := ⟨le_refl 0, by omega⟩
  have hbefore : ¬ Received data ((0 : ℕ) - 1) := fun hneg => absurd hneg.1 (by decide)
  unfold scanTest
  rw [charAt_received h]
  split_ifs with hlf hcr
  · exact iff_of_true (List.forall_mem_singleton.mpr hhere) hlf
  · exact iff_of_false (fun hall => hbefore (hall _ (by simp))) hlf
  · exact iff_of_false (fun hall => hbefore (hall _ (by simp))) hlf

/-- The loop never goes below index 1. -/
theorem scanTest_low (h : p ≤ 1) : (scanTest mem data p).1 = false := by
  have hle : decide ((p : ℤ) > 1) = false := decide_eq_false (by omega)
  unfold scanTest
  split_ifs
  · exact hle
  · exact hle
  · rfl

/-- Above index 1 the loop goes on exactly where no line ends. -/
theorem scanTest_high (h : p + 2 < data.length) :
    (scanTest mem data (p + 2 : ℕ)).1 = true ↔ ¬ LineEnd data (p + 1) := by
  have hhere : charAt mem data (p + 2 : ℕ) = data.getD (p + 2) 0 := charAt_received h
  have hbefore : charAt mem data ((p + 2 : ℕ) - 1) = data.getD (p + 1) 0 := by
    have hcast : ((p + 2 : ℕ) : ℤ) - 1 = (p + 1 : ℕ) := by omega
    rw [hcast]
    exact charAt_received (by omega)
  have hgt : decide (((p + 2 : ℕ) : ℤ) > 1) = true := decide_eq_true (by omega)
  unfold scanTest
  rw [hhere, hbefore, hgt]
  split_ifs with hlf hcr
  · exact iff_of_true rfl fun hend => hlf hend.2
  · exact iff_of_true rfl fun hend => hcr hend.1
  · exact iff_of_false (by decide) fun hno => hno ⟨not_not.mp hcr, not_not.mp hlf⟩

end Test

/-- What holds before every test of the condition. Index 0 is reached only in a reply of one byte,
where the scan begins there. -/
structure Scanning (data : Bytes) (s : Scan) : Prop where
  position : Received data s.startPos
  single : s.startPos = 0 → data.length = 1
  received : ∀ i ∈ s.reads, Received data i
  stop : scanStart data s.startPos.toNat = scanStart data (data.length - 1)

/-- What holds once the loop is left. -/
structure Scanned (data : Bytes) (s : Scan) : Prop where
  stop : s.startPos = scanStart data (data.length - 1)
  received : (∀ i ∈ s.reads, Received data i) ↔ data ≠ [0x0a]

section Loop

variable {mem : ℤ → UInt8} {data : Bytes} {s t : Scan}

theorem scanning_first (h : 1 ≤ data.length) : Scanning data (.first data) where
  position := ⟨by simp only [Scan.first]; omega, by simp only [Scan.first]; omega⟩
  single h0 := by
    simp only [Scan.first] at h0
    omega
  received i hi := absurd hi List.not_mem_nil
  stop := by
    have hpos : (data.length - 1 : ℤ).toNat = data.length - 1 := by omega
    simp only [Scan.first, hpos]

/-- What a turn can do. -/
theorem scanTurn_cases (mem : ℤ → UInt8) (data : Bytes) (s : Scan) :
    (scanTest mem data s.startPos).1 = true ∧ scanTurn mem data s =
        some (.inl ⟨s.reads ++ (scanTest mem data s.startPos).2, s.startPos - 1⟩) ∨
      (scanTest mem data s.startPos).1 = false ∧ scanTurn mem data s =
        some (.inr ⟨s.reads ++ (scanTest mem data s.startPos).2, s.startPos⟩) := by
  cases h : (scanTest mem data s.startPos).1 with
  | true => simp [scanTurn, h]
  | false => simp [scanTurn, h]

theorem scanTurn_ne_none (mem : ℤ → UInt8) (data : Bytes) (s : Scan) :
    scanTurn mem data s ≠ none := by
  rcases scanTurn_cases mem data s with ⟨-, ht⟩ | ⟨-, ht⟩ <;> simp [ht]

/-- A turn that goes round again was above index 1, where it read received bytes. -/
theorem Scanning.again (h : Scanning data s) (ht : scanTurn mem data s = some (.inl t)) :
    Scanning data t ∧ t.startPos.toNat < s.startPos.toNat := by
  obtain ⟨reads, startPos⟩ := s
  obtain ⟨p, rfl⟩ := Int.eq_ofNat_of_zero_le h.position.1
  have hp : p < data.length := Int.ofNat_lt.mp h.position.2
  rcases scanTurn_cases mem data ⟨reads, p⟩ with ⟨htrue, hturn⟩ | ⟨-, hturn⟩
  · obtain rfl := Sum.inl.inj (Option.some.inj (hturn.symm.trans ht))
    obtain ⟨q, rfl⟩ : ∃ q, p = q + 2 := by
      by_contra hlow
      have hle : p ≤ 1 := by
        by_contra hgt
        exact hlow ⟨p - 2, by omega⟩
      exact absurd (htrue.symm.trans (scanTest_low hle)) (by decide)
    have hno : ¬ LineEnd data (q + 1) := (scanTest_high hp).mp htrue
    have hback : (((q + 2 : ℕ) : ℤ) - 1).toNat = q + 1 := by omega
    constructor
    · constructor
      · show 0 ≤ ((q + 2 : ℕ) : ℤ) - 1 ∧ ((q + 2 : ℕ) : ℤ) - 1 < data.length
        omega
      · show ((q + 2 : ℕ) : ℤ) - 1 = 0 → data.length = 1
        omega
      · intro i hi
        rcases List.mem_append.mp hi with hi | hi
        · exact h.received i hi
        · exact scanTest_received (by omega) hp i hi
      · rw [hback, ← scanStart_of_not_lineEnd hno]
        exact h.stop
    · show (((q + 2 : ℕ) : ℤ) - 1).toNat < ((q + 2 : ℕ) : ℤ).toNat
      omega
  · rw [hturn] at ht
    exact absurd ht (by simp)

/-- The last test leaves the position where `scanStart` stops. It is the only one that can be at
index 0. -/
theorem Scanning.last (h : Scanning data s) (ht : scanTurn mem data s = some (.inr t)) :
    Scanned data t := by
  obtain ⟨reads, startPos⟩ := s
  obtain ⟨p, rfl⟩ := Int.eq_ofNat_of_zero_le h.position.1
  have hp : p < data.length := Int.ofNat_lt.mp h.position.2
  rcases scanTurn_cases mem data ⟨reads, p⟩ with ⟨-, hturn⟩ | ⟨hfalse, hturn⟩
  · rw [hturn] at ht
    exact absurd ht (by simp)
  · obtain rfl := Sum.inr.inj (Option.some.inj (hturn.symm.trans ht))
    have hstop : scanStart data p = scanStart data (data.length - 1) := h.stop
    have hlast : (∀ i ∈ reads ++ (scanTest mem data p).2, Received data i) ↔
        ∀ i ∈ (scanTest mem data p).2, Received data i := by
      rw [List.forall_mem_append]
      exact and_iff_right h.received
    constructor
    · rw [← hstop]
      match p with
      | 0 | 1 => rfl
      | q + 2 =>
        have hend : LineEnd data (q + 1) := by
          by_contra hno
          exact absurd (hfalse.symm.trans ((scanTest_high hp).mpr hno)) (by decide)
        rw [scanStart_of_lineEnd hend]
    · refine hlast.trans ?_
      match p with
      | 0 =>
        obtain ⟨b, rfl⟩ := List.length_eq_one_iff.mp (h.single rfl)
        rw [scanTest_zero_received hp]
        simp
      | q + 1 =>
        apply iff_of_true (scanTest_received (by omega) hp)
        rintro rfl
        simp at hp

end Loop

theorem scanStart_le (data : Bytes) (p : ℕ) : scanStart data p ≤ p := by
  fun_induction scanStart data p with
  | case1 => exact le_rfl
  | case2 => exact le_rfl
  | case3 p hne ih => omega
  | case4 p hend => exact le_rfl

/-- The scan of a reply that is not empty ends after at most as many tests as there are bytes, and
the range handed to the parser has a size and lies in the reply. Every index it reads is one of
the reply exactly when the reply is not a single line feed. -/
theorem post_scan_in_bounds_iff (mem : ℤ → UInt8) (data : Bytes) (h : 1 ≤ data.length) :
    ∃ s, Loop.run (scanTurn mem data) data.length (.first data) = .finished s ∧
      ((∀ i ∈ s.reads, 0 ≤ i ∧ i < data.length) ↔ data ≠ [0x0a]) ∧
      (0 ≤ s.bodyStart ∧ 0 ≤ s.bodySize data.length ∧
        s.bodyStart + s.bodySize data.length ≤ data.length) ∧
      postBody data = (data.drop s.bodyStart.toNat).take (s.bodySize data.length).toNat := by
  have hsize : (Scan.first data).startPos.toNat < data.length := by
    show ((data.length : ℤ) - 1).toNat < data.length
    omega
  obtain ⟨s, hrun, hs⟩ := Loop.run_finishes (fun s : Scan => s.startPos.toNat) (Scanning data)
    (Scanned data) (fun s _ => scanTurn_ne_none mem data s) (fun _ _ hs ht => hs.again ht)
    (fun _ _ hs ht => hs.last ht) (scanning_first h) hsize
  have hle := scanStart_le data (data.length - 1)
  have hstart : s.bodyStart = (scanStart data (data.length - 1) + 1 : ℕ) := by
    rw [Scan.bodyStart, hs.stop]
    rfl
  have hrest : s.bodySize data.length =
      (data.length - (scanStart data (data.length - 1) + 1) : ℕ) := by
    rw [Scan.bodySize, hs.stop]
    omega
  refine ⟨s, hrun, hs.received, ?_, ?_⟩
  · rw [hstart, hrest]
    omega
  · rw [postBody, if_neg (by omega), hstart, hrest, Int.toNat_natCast, Int.toNat_natCast,
      List.take_of_length_le (by rw [List.length_drop])]

/-- A reply of a head without a body, cut off behind its first line. -/
def firstLineReply : Bytes := ascii "HTTP/1.1 200 OK\r\n"

theorem firstLineReply_scan_in_bounds :
    1 ≤ firstLineReply.length ∧
    ∃ s, Loop.run (scanTurn (fun _ => 0) firstLineReply) firstLineReply.length
        (.first firstLineReply) = .finished s ∧
      ∀ i ∈ s.reads, 0 ≤ i ∧ i < firstLineReply.length := by
  have hlen : 1 ≤ firstLineReply.length := by decide
  obtain ⟨s, hrun, hreads, -⟩ := post_scan_in_bounds_iff (fun _ => 0) firstLineReply hlen
  exact ⟨hlen, s, hrun, hreads.mpr (by decide)⟩

/-- A line feed, the first byte of some reply that has arrived. -/
def lineFeedReply : Bytes := [0x0a]

/-- Its scan reads the byte in front of the array, whatever memory holds. -/
theorem lineFeedReply_reads_before :
    1 ≤ lineFeedReply.length ∧
    ∀ mem : ℤ → UInt8, ∃ s, Loop.run (scanTurn mem lineFeedReply) lineFeedReply.length
      (.first lineFeedReply) = .finished s ∧ -1 ∈ s.reads := by
  refine ⟨by decide, ?_⟩
  intro mem
  have htest : scanTest mem lineFeedReply 0 = (false, [0, -1]) := by
    have hbyte : charAt mem lineFeedReply 0 = 0x0a := rfl
    unfold scanTest
    rw [hbyte, if_neg (by decide)]
    split_ifs <;> rfl
  have hturn : scanTurn mem lineFeedReply (.first lineFeedReply) = some (.inr ⟨[0, -1], 0⟩) := by
    have hstart : (Scan.first lineFeedReply).startPos = 0 := rfl
    simp only [scanTurn, hstart, htest]
    rfl
  have hrun : Loop.run (scanTurn mem lineFeedReply) 1 (.first lineFeedReply) =
      .finished ⟨[0, -1], 0⟩ := by
    rw [Loop.run, hturn]
  exact ⟨⟨[0, -1], 0⟩, hrun, by decide⟩

end EglComet
