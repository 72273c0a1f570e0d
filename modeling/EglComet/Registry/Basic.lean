import EglComet.Library.Directory
import Mathlib.Logic.Relation

/-!
What the workers are for, without frames, backends and buffers: each worker
keeps a directory of the logged-in ids of its connections, counts its
connections, and has a queue of ids that other workers told it to delete. The
ids and the addresses of connections are arbitrary types; the id zero stands
for a connection that is not logged in.
-/
namespace EglComet

/-- History of a registry: a connection is known by its address and by a number of its own. -/
inductive Note (I A : Type) where
  | accepted (w : ℕ) (b : A) (conn : ℕ)
  | registered (w : ℕ) (b : A) (x : I) (conn : Option ℕ)
  | ended (conn : Option ℕ)
  | eraseEnd (w : ℕ) (x : I)
  deriving DecidableEq

/-- Per worker a directory, a counter and the pending deletions; for the whole process the number
of workers and the connections alive at each address. -/
@[ext] structure Registry (I A : Type) where
  num : ℕ
  dir : ℕ → Directory I A
  count : ℕ → ℤ
  dels : ℕ → List I
  live : A → Option (ℕ × ℕ)
  log : List (Note I A)

/-- What can happen to a registry. A connection leaves when it is closed or expires; an approval
names the workers that were told to delete the id. -/
inductive Label (I A : Type) where
  | accept (w : ℕ) (b : A) (conn : ℕ)
  | leave (w : ℕ) (b : A)
  | approve (w : ℕ) (b : A) (x : I) (told : List ℕ)
  | deliver (w : ℕ) (x : I) (rest : List I)

namespace Registry

variable {I A : Type} [DecidableEq I] [DecidableEq A]

def onDir (w : ℕ) (f : Directory I A → Directory I A) (r : Registry I A) : Registry I A :=
  { r with dir := Function.update r.dir w (f (r.dir w)) }

/-- Remove the session of an id; its connection is freed if the worker still knows it. -/
def kick (w : ℕ) (x : I) (r : Registry I A) : Registry I A where
  num := r.num
  dir := Function.update r.dir w ((r.dir w).remove x)
  count := r.count
  dels := r.dels
  live b := if (r.dir w).holder x = some b ∧ b ∈ (r.dir w).names then none else r.live b
  log := r.log

def push (x : I) (r : Registry I A) (j : ℕ) : Registry I A :=
  { r with dels := Function.update r.dels j (r.dels j ++ [x]) }

/-- Tell the listed workers to delete an id. -/
def tell (x : I) (told : List ℕ) (r : Registry I A) : Registry I A := told.foldl (push x) r

/-- The registry of a process that has just started its workers. -/
def start (num : ℕ) : Registry I A where
  num := num
  dir := fun _ => ⟨fun _ => none, ∅⟩
  count := fun _ => 0
  dels := fun _ => []
  live := fun _ => none
  log := []

/-- The number of the connection at an address. -/
def connAt (r : Registry I A) (b : A) : Option ℕ := (r.live b).map Prod.snd

section Moves

variable [Zero I]

def apply (r : Registry I A) : Label I A → Registry I A
  | .accept w b conn =>
    { r with
      dir := Function.update r.dir w ((r.dir w).enter 0 b)
      count := Function.update r.count w (r.count w + 1)
      live := Function.update r.live b (some (w, conn))
      log := r.log ++ [.accepted w b conn] }
  | .leave w b =>
    { r with
      dir := Function.update r.dir w ((r.dir w).leave b)
      count := Function.update r.count w (r.count w - 1)
      live := Function.update r.live b none
      log := r.log ++ [.ended (r.connAt b)] }
  | .approve w b x told =>
    let r := (r.kick w x).tell x told
    { r.onDir w (Directory.bind x b) with log := r.log ++ [.registered w b x (r.connAt b)] }
  | .deliver w x rest =>
    let stale := (r.dir w).holder x ≠ none ∧ ∀ a ∈ (r.dir w).holder x, a ∉ (r.dir w).names
    { r.kick w x with
      dels := Function.update r.dels w rest
      log := r.log ++ if stale then [.eraseEnd w x] else [] }

def Enabled (r : Registry I A) : Label I A → Prop
  | .accept _ b _ => r.live b = none
  | .leave w b => (∃ conn, r.live b = some (w, conn)) ∨ b ∈ (r.dir w).names
  | .approve w b x told => b ∈ (r.dir w).names ∧ ∀ j ∈ told, ((r.kick w x).dir j).holder x ≠ none
  | .deliver w x rest => r.dels w = x :: rest

/-- Any number of moves that all meet a condition. -/
def Moves (ok : Registry I A → Label I A → Prop) : Registry I A → Registry I A → Prop :=
  Relation.ReflTransGen fun r r' => ∃ l, r.Enabled l ∧ ok r l ∧ r' = r.apply l

theorem Moves.invariant {ok : Registry I A → Label I A → Prop} {P : Registry I A → Prop}
    {r r' : Registry I A} (h : Moves ok r r')
    (hs : ∀ r l, P r → r.Enabled l → ok r l → P (r.apply l)) (h0 : P r) : P r' := by
  induction h with
  | refl => exact h0
  | tail _ hm ih =>
    obtain ⟨l, he, ho, rfl⟩ := hm
    exact hs _ l ih he ho

theorem Moves.single {ok : Registry I A → Label I A → Prop} {r : Registry I A} {l : Label I A}
    (he : r.Enabled l) (ho : ok r l) : Moves ok r (r.apply l) :=
  Relation.ReflTransGen.single ⟨l, he, ho, rfl⟩

theorem Moves.mono {ok ok' : Registry I A → Label I A → Prop} {r r' : Registry I A}
    (h : Moves ok r r') (hok : ∀ r l, ok r l → ok' r l) : Moves ok' r r' :=
  Relation.ReflTransGen.mono (fun _ _ ⟨l, he, ho, hl⟩ => ⟨l, he, hok _ l ho, hl⟩) _ _ h

end Moves

section Kick

theorem dir_kick (w j : ℕ) (x : I) (r : Registry I A) :
    (r.kick w x).dir j = if j = w then (r.dir w).remove x else r.dir j := by
  simp only [kick, Function.update_apply]

theorem holder_kick (w j : ℕ) (x y : I) (r : Registry I A) :
    ((r.kick w x).dir j).holder y = if j = w ∧ y = x then none else (r.dir j).holder y := by
  rw [dir_kick]
  by_cases hj : j = w
  · subst hj
    simp [Directory.holder_remove]
  · simp [hj]

theorem live_kick (w : ℕ) (x : I) (b : A) (r : Registry I A) :
    (r.kick w x).live b =
      if (r.dir w).holder x = some b ∧ b ∈ (r.dir w).names then none else r.live b := rfl

/-- A session that is removed frees its connection exactly if the worker knows it. -/
theorem kick_of_holder {w : ℕ} {x : I} {a : A} {r : Registry I A}
    (h : (r.dir w).holder x = some a) :
    r.kick w x =
      { r.onDir w (fun d => d.remove x) with
        live := if a ∈ (r.dir w).names then Function.update r.live a none else r.live } := by
  have hl : (r.kick w x).live =
      if a ∈ (r.dir w).names then Function.update r.live a none else r.live := by
    funext b
    rw [live_kick, h, apply_ite (fun f : A → Option (ℕ × ℕ) => f b), Function.update_apply]
    by_cases hb : b = a
    · subst hb
      simp
    · simp [hb, Ne.symm hb]
  rw [← hl]
  rfl

/-- Forgetting a key of a table and freeing what lives there go together. -/
theorem mem_kick {w j : ℕ} {x : I} {b : A} {r : Registry I A}
    (h : b ∈ ((r.kick w x).dir j).names) :
    b ∈ (r.dir j).names ∧ ¬ (j = w ∧ (r.dir w).holder x = some b) := by
  rw [dir_kick] at h
  split_ifs at h with hj
  · subst hj
    exact ⟨(Directory.mem_remove h).1, fun hx => (Directory.mem_remove h).2 hx.2⟩
  · exact ⟨h, fun hx => hj hx.1⟩

theorem mem_kick_of_mem {w j : ℕ} {x : I} {b : A} {r : Registry I A}
    (h : b ∈ (r.dir j).names) (hb : ¬ (j = w ∧ (r.dir w).holder x = some b)) :
    b ∈ ((r.kick w x).dir j).names := by
  rw [dir_kick]
  split_ifs with hj
  · subst hj
    obtain ⟨y, hy⟩ := (Directory.mem_names_iff _ _).mp h
    rw [Directory.mem_names_iff]
    refine ⟨y, ?_⟩
    rw [Directory.lookup_remove, if_neg fun hx => hb ⟨rfl, hx⟩]
    exact hy
  · exact h

end Kick

section Tell

omit [DecidableEq I] [DecidableEq A]

theorem tell_eq (x : I) (told : List ℕ) (r : Registry I A) :
    r.tell x told = { r with dels := (r.tell x told).dels } := by
  induction told generalizing r with
  | nil => rfl
  | cons j js ih =>
    change tell x js (push x r j) = _
    rw [ih]
    rfl

@[simp] theorem num_tell (x : I) (told : List ℕ) (r : Registry I A) :
    (r.tell x told).num = r.num := by rw [tell_eq]

@[simp] theorem dir_tell (x : I) (told : List ℕ) (r : Registry I A) :
    (r.tell x told).dir = r.dir := by rw [tell_eq]

@[simp] theorem count_tell (x : I) (told : List ℕ) (r : Registry I A) :
    (r.tell x told).count = r.count := by rw [tell_eq]

@[simp] theorem live_tell (x : I) (told : List ℕ) (r : Registry I A) :
    (r.tell x told).live = r.live := by rw [tell_eq]

@[simp] theorem log_tell (x : I) (told : List ℕ) (r : Registry I A) :
    (r.tell x told).log = r.log := by rw [tell_eq]

theorem mem_dels_tell {x y : I} {told : List ℕ} {r : Registry I A} {j : ℕ} :
    y ∈ (r.tell x told).dels j ↔ y ∈ r.dels j ∨ (y = x ∧ j ∈ told) := by
  induction told generalizing r with
  | nil => simp [tell]
  | cons i is ih =>
    change y ∈ (tell x is (push x r i)).dels j ↔ _
    rw [ih]
    by_cases hj : j = i
    · subst hj
      simp [push]
      tauto
    · simp [push, hj]

end Tell

end Registry

end EglComet
