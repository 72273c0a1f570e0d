import EglComet.Library.Descriptors
import EglComet.Library.Transition
import EglComet.SingletonLog

/-!
Rotation of the log while other threads write to it. `write_log` reads
`_log_fd` and then calls `write`; `open_log`, on the main thread, opens the next
file, closes the one before the last and only then replaces `_log_fd`. No lock
is taken, and a descriptor that was closed is given out again at once.
-/
namespace EglComet

open Protobuf Descriptors

/-- What a descriptor of the process refers to: something the process was started with,
`/dev/null`, the log file with a number, or anything that another part of the server opened. -/
inductive Opened where
  | inherited (n : ℕ)
  | devNull
  | log (number : ℕ)
  | other (owner : ℕ)
  deriving DecidableEq, Repr

/-- The outcomes of the calls of `to_daemon` in the child. -/
structure DaemonEnv where
  fork : Bool
  setsid : Bool
  devNull : Bool

/-- `to_daemon` on the descriptors of the process; absent if it returns false. -/
def toDaemon (env : DaemonEnv) (t : Table ℕ Opened) : Option (Table ℕ Opened) := do
  guard env.fork
  guard env.setsid
  let t ← close 0 t
  let t ← close 1 t
  let t ← close 2 t
  guard env.devNull
  let (fd, t) := openFile .devNull t
  let t ← dup2 fd 0 t
  let t ← dup2 fd 1 t
  dup2 fd 2 t

/-- The part of `main` before `init_server`. -/
def boot (isDaemon : Bool) (env : DaemonEnv) (t : Table ℕ Opened) : Option (Table ℕ Opened) :=
  if isDaemon then toDaemon env t else some t

/-- `logger_folder` and `logger_level`. -/
structure LoggerConfig where
  folder : Bytes
  level : Bytes

/-- The name that `open_log` prints. -/
def logPath (folder : Bytes) (tm : Tm) : Bytes :=
  folder ++ ascii "/" ++ printInt 4 (tm.year + 1900).toInt ++ printInt 2 (tm.mon + 1).toInt ++
    printInt 2 tm.mday.toInt ++ printInt 2 tm.hour.toInt ++ printInt 2 tm.min.toInt ++
    printInt 2 tm.sec.toInt ++ ascii ".log"

/-- Where `open_log` stands: the descriptor it opened, before and after each of the three
statements that follow. -/
inductive Rotation where
  | idle
  | opened (fd : ℕ)
  | closed (fd : ℕ)
  | shifted (fd : ℕ)
  deriving DecidableEq, Repr

structure LogFile where
  fd : ℕ
  path : Bytes
  deriving DecidableEq, Repr

/-- A thread between reading `_log_fd` and calling `write`, with the number of the file that
`_log_fd` stood for as history. -/
structure PendingLine where
  fd : ℕ
  number : ℕ
  line : Bytes
  deriving DecidableEq, Repr

/-- A `write`: what it was meant for, where it went, and how many log files were closed by then. -/
structure LogWrite where
  number : ℕ
  line : Bytes
  target : Option Opened
  closed : ℕ
  deriving DecidableEq, Repr

/-- The logger in its process. `files`, `closed`, `current` and `writes` are history: the log files
opened so far, how many of them were closed, and the number of the file that `_log_fd` stands
for. -/
structure LogProcess where
  table : Table ℕ Opened
  logLevel : LogLevel
  logFd : ℕ := 0
  oldFd : ℕ := 0
  rotation : Rotation := .idle
  pending : ℕ → Option PendingLine := fun _ => none
  files : List LogFile := []
  closed : ℕ := 0
  current : ℕ := 0
  writes : List LogWrite := []

/-- The steps that interleave. `openLog` is `open_log` up to its call of `open`; `load` is
`write_log` up to its reading of `_log_fd`. -/
inductive LogEvent where
  | openLog (tm : Tm) (ok : Bool)
  | closeOld
  | keepOld
  | publish
  | load (thread : ℕ) (e : LogEnv) (level : LogLevel) (message : Bytes) (mem : ℕ → UInt8)
  | write (thread : ℕ)
  | openOther (owner : ℕ)
  | closeOther (fd : ℕ)

namespace LogProcess

/-- `open_log` up to a successful `open`. -/
def openNext (s : LogProcess) (level : LogLevel) (path : Bytes) : LogProcess :=
  let r := openFile (.log s.files.length) s.table
  { s with
    logLevel := level, table := r.2, rotation := .opened r.1, files := s.files ++ [⟨r.1, path⟩] }

/-- `if (_old_fd != 0) close(_old_fd)`; the result of `close` is not looked at. -/
def closeOldFd (s : LogProcess) (fd : ℕ) : LogProcess :=
  if s.oldFd ≠ 0 then
    { s with
      table := (close s.oldFd s.table).getD s.table, closed := s.closed + 1,
      rotation := .closed fd }
  else { s with rotation := .closed fd }

/-- `_old_fd = _log_fd`. -/
def keepOld (s : LogProcess) (fd : ℕ) : LogProcess :=
  { s with oldFd := s.logFd, rotation := .shifted fd }

/-- `_log_fd = log_fd`. -/
def publish (s : LogProcess) (fd : ℕ) : LogProcess :=
  { s with logFd := fd, current := s.files.length - 1, rotation := .idle }

/-- A successful `open_log` that nothing interrupts. -/
def openLog (s : LogProcess) (level : LogLevel) (path : Bytes) : LogProcess :=
  let fd := lowest s.table
  (((s.openNext level path).closeOldFd fd).keepOld fd).publish fd

/-- `write_log` up to the reading of `_log_fd`, with the line it has made. -/
def load (s : LogProcess) (thread : ℕ) (line : Bytes) : LogProcess :=
  { s with pending := Function.update s.pending thread (some ⟨s.logFd, s.current, line⟩) }

/-- The `write` at the end of `write_log`. -/
def write (s : LogProcess) (thread : ℕ) (p : PendingLine) : LogProcess :=
  { s with
    pending := Function.update s.pending thread none,
    writes := s.writes ++ [⟨p.number, p.line, s.table.lookup p.fd, s.closed⟩] }

def setTable (s : LogProcess) (table : Table ℕ Opened) : LogProcess := { s with table }

variable (c : LoggerConfig)

def step (s : LogProcess) : LogEvent → Option LogProcess
  | .openLog tm ok =>
    match s.rotation with
    | .idle =>
      if ok then some (s.openNext (getLogLevel c.level) (logPath c.folder tm))
      else some { s with logLevel := getLogLevel c.level }
    | _ => none
  | .closeOld =>
    match s.rotation with
    | .opened fd => some (s.closeOldFd fd)
    | _ => none
  | .keepOld =>
    match s.rotation with
    | .closed fd => some (s.keepOld fd)
    | _ => none
  | .publish =>
    match s.rotation with
    | .shifted fd => some (s.publish fd)
    | _ => none
  | .load thread e level message mem =>
    match s.pending thread with
    | some _ => none
    | none =>
      match (writeLog { e with logLevel := s.logLevel } level message mem).output with
      | some line => some (s.load thread line)
      | none => some s
  | .write thread => (s.pending thread).map (s.write thread)
  | .openOther owner => some (s.setTable (openFile (.other owner) s.table).2)
  | .closeOther fd =>
    match s.table.lookup fd with
    | some (.other _) => some (s.setTable (s.table.erase fd))
    | _ => none

/-- The logger after `init_server`: the constructor, and the first `open_log`, which no other
thread can interrupt. -/
def initLog (level : LogLevel) (tm : Tm) (table : Table ℕ Opened) : LogProcess :=
  ({ table, logLevel := level } : LogProcess).openLog (getLogLevel c.level) (logPath c.folder tm)

/-- The server has started: as a daemon, or from a process whose descriptor 0 is in use. -/
def Started (s : LogProcess) : Prop :=
  ∃ isDaemon env inherited table level tm,
    (∀ n f, inherited.lookup n = some f → ∃ k, f = .inherited k) ∧
    (isDaemon = false → 0 ∈ inherited) ∧ boot isDaemon env inherited = some table ∧
    s = initLog c level tm table

end LogProcess

section Daemon

/-- A daemon has `/dev/null` at the three standard descriptors; the others are untouched. -/
theorem lookup_toDaemon {env : DaemonEnv} {t t' : Table ℕ Opened} (h : toDaemon env t = some t')
    (n : ℕ) : t'.lookup n = if n < 3 then some .devNull else t.lookup n := by
  simp only [toDaemon, close, dup2, openFile, bind, Option.bind_eq_some_iff,
    Option.ite_none_right_eq_some, Option.map_eq_some_iff, Option.some.injEq] at h
  obtain ⟨-, -, -, -, t₀, ⟨-, rfl⟩, t₁, ⟨-, rfl⟩, t₂, ⟨-, rfl⟩, -, -, u₀, ⟨f₀, hf₀, rfl⟩, u₁,
    ⟨f₁, hf₁, rfl⟩, f₂, hf₂, rfl⟩ := h
  have hlow : lowest (((t.erase 0).erase 1).erase 2) = 0 := by
    apply Nat.le_zero.mp (lowest_le _)
    rw [← Finmap.lookup_eq_none]
    simp
  simp only [hlow, Table.lookup_insert_eq, Table.lookup_erase_eq, ↓reduceIte, Option.some.injEq,
    zero_ne_one] at hf₀ hf₁ hf₂ ⊢
  subst hf₀ hf₁ hf₂
  rcases n with _ | _ | _ | n <;> simp

end Daemon

namespace LogProcess

/-- What a process is started with, and what `to_daemon` puts in its place. -/
def Fixed (f : Opened) : Prop := (∃ n, f = .inherited n) ∨ f = .devNull

/-- The descriptor that a log file was opened at. -/
def fdOf (s : LogProcess) (k : ℕ) : Option ℕ := s.files[k]?.map LogFile.fd

/-- `_old_fd` outside the three statements: zero after the first `open_log`, and afterwards the file
before the current one, the only one besides it that is open. -/
def Old (s : LogProcess) : Prop :=
  if s.current = 0 then s.oldFd = 0 ∧ s.closed = 0
  else s.closed + 1 = s.current ∧ s.fdOf s.closed = some s.oldFd

/-- What `open_log` has done so far. -/
def Stage (s : LogProcess) : Prop :=
  match s.rotation with
  | .idle => s.files.length = s.current + 1 ∧ s.Old
  | .opened fd => s.files.length = s.current + 2 ∧ s.fdOf (s.current + 1) = some fd ∧ s.Old
  | .closed fd =>
    s.files.length = s.current + 2 ∧ s.fdOf (s.current + 1) = some fd ∧ s.closed = s.current
  | .shifted fd =>
    s.files.length = s.current + 2 ∧ s.fdOf (s.current + 1) = some fd ∧ s.closed = s.current ∧
      s.oldFd = s.logFd

/-- How many log files stay open: one more between the `open` and the `close` of a rotation. -/
def keeps (s : LogProcess) : ℕ :=
  match s.rotation with
  | .opened _ => 3
  | .idle | .closed _ | .shifted _ => 2

theorem two_le_keeps (s : LogProcess) : 2 ≤ s.keeps := by
  unfold keeps
  split <;> omega

/-- The log files that are open are the ones from `closed` on, each at the descriptor it was opened
at; `_log_fd` and every pending line name the descriptor of a file. -/
structure Rotating (s : LogProcess) : Prop where
  ground : ∃ f, s.table.lookup 0 = some f ∧ Fixed f
  logs : ∀ fd k, s.table.lookup fd = some (.log k) ↔ s.closed ≤ k ∧ s.fdOf k = some fd
  log : s.fdOf s.current = some s.logFd
  stage : s.Stage
  pending : ∀ t p, s.pending t = some p → s.fdOf p.number = some p.fd
  writes : ∀ w ∈ s.writes, w.target = some (.log w.number) ↔ w.closed ≤ w.number

section Steps

variable {s t : LogProcess}

theorem fdOf_lt {k fd : ℕ} (h : s.fdOf k = some fd) : k < s.files.length := by
  obtain ⟨f, hf, -⟩ := Option.map_eq_some_iff.mp h
  exact (List.getElem?_eq_some_iff.mp hf).1

theorem Old.closed_le (h : s.Old) : s.closed ≤ s.current := by
  unfold Old at h
  split_ifs at h <;> omega

theorem Rotating.closed_le (h : s.Rotating) : s.closed ≤ s.current := by
  have hs := h.stage
  unfold Stage at hs
  split at hs
  · exact hs.2.closed_le
  · exact hs.2.2.closed_le
  · exact hs.2.2.le
  · exact hs.2.2.1.le

/-- The descriptor of an open log file is not 0. -/
theorem Rotating.ne_zero (h : s.Rotating) {fd k : ℕ} (hk : s.closed ≤ k)
    (hfd : s.fdOf k = some fd) : fd ≠ 0 := by
  rintro rfl
  obtain ⟨f, hf, hfix⟩ := h.ground
  rw [(h.logs 0 k).mpr ⟨hk, hfd⟩] at hf
  obtain rfl := Option.some.inj hf
  rcases hfix with ⟨n, hn⟩ | hn <;> cases hn

/-- Opening a descriptor of another kind, or closing one, leaves the log files alone. -/
theorem Rotating.setTable (h : s.Rotating) {table : Table ℕ Opened}
    (hground : table.lookup 0 = s.table.lookup 0)
    (hlogs : ∀ fd k, table.lookup fd = some (.log k) ↔ s.table.lookup fd = some (.log k)) :
    (s.setTable table).Rotating where
  ground := hground ▸ h.ground
  logs fd k := (hlogs fd k).trans (h.logs fd k)
  log := h.log
  stage := h.stage
  pending := h.pending
  writes := h.writes

theorem Rotating.openOther (h : s.Rotating) (owner : ℕ) :
    (s.setTable (openFile (.other owner) s.table).2).Rotating := by
  obtain ⟨f, hf, -⟩ := h.ground
  apply h.setTable
  · rw [openFile, Table.lookup_insert_eq, if_neg (ne_lowest hf)]
  · intro fd k
    rw [openFile, Table.lookup_insert_eq]
    split_ifs with hfd
    · subst hfd
      simp [lookup_lowest]
    · rfl

theorem Rotating.closeOther (h : s.Rotating) {fd owner : ℕ}
    (hfd : s.table.lookup fd = some (.other owner)) :
    (s.setTable (s.table.erase fd)).Rotating := by
  obtain ⟨f, hf, hfix⟩ := h.ground
  have h0 : 0 ≠ fd := by
    rintro rfl
    rw [hf] at hfd
    obtain rfl := Option.some.inj hfd
    rcases hfix with ⟨n, hn⟩ | hn <;> cases hn
  apply h.setTable
  · rw [Table.lookup_erase_eq, if_neg h0]
  · intro fd' k
    rw [Table.lookup_erase_eq]
    split_ifs with heq
    · subst heq
      simp [hfd]
    · rfl

theorem fdOf_openNext (s : LogProcess) (level : LogLevel) (path : Bytes) (k : ℕ) :
    (s.openNext level path).fdOf k =
      if k = s.files.length then some (lowest s.table) else s.fdOf k := by
  simp only [fdOf, openNext, openFile, List.getElem?_append]
  split_ifs with hlt heq heq
  · omega
  · rfl
  · simp [heq]
  · rw [List.getElem?_eq_none (by simp; omega), List.getElem?_eq_none (by omega)]

theorem lookup_openNext (s : LogProcess) (level : LogLevel) (path : Bytes) (fd : ℕ) :
    (s.openNext level path).table.lookup fd =
      if fd = lowest s.table then some (.log s.files.length) else s.table.lookup fd :=
  Table.lookup_insert_eq ..

/-- A file that is opened takes a descriptor that no open log file has. -/
theorem Rotating.logs_openNext (h : s.Rotating) (level : LogLevel) (path : Bytes) (fd k : ℕ)
    (hc : s.closed ≤ s.files.length) :
    (s.openNext level path).table.lookup fd = some (.log k) ↔
      s.closed ≤ k ∧ (s.openNext level path).fdOf k = some fd := by
  rw [lookup_openNext, fdOf_openNext]
  by_cases hk : k = s.files.length
  · subst hk
    have hnone : s.table.lookup fd ≠ some (.log s.files.length) := fun hl =>
      absurd (fdOf_lt ((h.logs fd _).mp hl).2) (lt_irrefl _)
    simp only [↓reduceIte, Option.some.injEq]
    split_ifs with hlow
    · simp [hc, hlow]
    · simp [hnone, Ne.symm hlow]
  · rw [if_neg hk]
    split_ifs with hlow
    · subst hlow
      have hnone := h.logs (lowest s.table) k
      rw [lookup_lowest] at hnone
      simp only [Option.some.injEq, Opened.log.injEq]
      constructor
      · exact fun heq => absurd heq.symm hk
      · exact fun hr => absurd (hnone.mpr hr) (by simp)
    · exact h.logs fd k

/-- `Old` looks at the history only up to the current file. -/
theorem Old.congr (h : s.Old) (ho : t.oldFd = s.oldFd) (hc : t.closed = s.closed)
    (hcur : t.current = s.current)
    (hfd : ∀ fd, s.fdOf s.closed = some fd → t.fdOf s.closed = some fd) :
    t.Old := by
  unfold Old at h ⊢
  rw [ho, hc, hcur]
  split_ifs at h ⊢
  · exact h
  · exact ⟨h.1, hfd _ h.2⟩

theorem Rotating.openNext (h : s.Rotating) (hr : s.rotation = .idle) (level : LogLevel)
    (path : Bytes) : (s.openNext level path).Rotating := by
  obtain ⟨f, hf, hfix⟩ := h.ground
  have hs := h.stage
  simp only [Stage, hr] at hs
  obtain ⟨hlen, hold⟩ := hs
  have hkeep (k fd : ℕ) (hk : s.fdOf k = some fd) : (s.openNext level path).fdOf k = some fd := by
    have hlt := fdOf_lt hk
    rw [fdOf_openNext, if_neg (by omega), hk]
  have hcl := hold.closed_le
  refine ⟨⟨f, ?_, hfix⟩, fun fd k => h.logs_openNext level path fd k (by omega), hkeep _ _ h.log,
    ⟨by simp [LogProcess.openNext, hlen], ?_, hold.congr rfl rfl rfl (hkeep _)⟩,
    fun t p hp => hkeep _ _ (h.pending t p hp), h.writes⟩
  · rw [lookup_openNext, if_neg (ne_lowest hf), hf]
  · rw [fdOf_openNext, if_pos]
    · rfl
    · exact hlen.symm

/-- The first rotation has nothing to close; a later one closes the file before the current. -/
theorem Rotating.closeOldFd_cases (h : s.Rotating) {fd : ℕ} (hr : s.rotation = .opened fd) :
    (s.closed = s.current ∧ s.closeOldFd fd = { s with rotation := .closed fd }) ∨
      (s.closed + 1 = s.current ∧ s.table.lookup s.oldFd = some (.log s.closed) ∧ s.oldFd ≠ 0 ∧
        s.closeOldFd fd = { s with
          table := s.table.erase s.oldFd, closed := s.closed + 1, rotation := .closed fd }) := by
  have hs := h.stage
  simp only [Stage, hr, Old] at hs
  obtain ⟨-, -, hold⟩ := hs
  by_cases h0 : s.current = 0
  · rw [if_pos h0] at hold
    left
    exact ⟨hold.2.trans h0.symm, if_neg (not_not.mpr hold.1)⟩
  · rw [if_neg h0] at hold
    obtain ⟨hclosed, hfd⟩ := hold
    have hopen := (h.logs s.oldFd s.closed).mpr ⟨le_rfl, hfd⟩
    have hne := h.ne_zero le_rfl hfd
    refine Or.inr ⟨hclosed, hopen, hne, ?_⟩
    rw [LogProcess.closeOldFd, if_pos hne, close, if_pos (Table.mem_of_lookup hopen)]
    rfl

theorem Rotating.closeOldFd (h : s.Rotating) {fd : ℕ} (hr : s.rotation = .opened fd) :
    (s.closeOldFd fd).Rotating := by
  have hs := h.stage
  simp only [Stage, hr] at hs
  obtain ⟨hlen, hnext, -⟩ := hs
  rcases h.closeOldFd_cases hr with ⟨hclosed, heq⟩ | ⟨hclosed, hopen, hne, heq⟩
  · rw [heq]
    exact ⟨h.ground, h.logs, h.log, ⟨hlen, hnext, hclosed⟩, h.pending, h.writes⟩
  · obtain ⟨f, hf, hfix⟩ := h.ground
    have hfd := ((h.logs s.oldFd s.closed).mp hopen).2
    rw [heq]
    refine ⟨⟨f, ?_, hfix⟩, fun fd' k => ?_, h.log, ⟨hlen, hnext, hclosed⟩, h.pending, h.writes⟩
    · rw [Table.lookup_erase_eq, if_neg hne.symm, hf]
    · rw [Table.lookup_erase_eq]
      split_ifs with heq
      · subst heq
        refine iff_of_false (by simp) ?_
        rintro ⟨hk, hkfd⟩
        have hlog := (h.logs s.oldFd k).mpr ⟨Nat.le_of_succ_le hk, hkfd⟩
        rw [hopen] at hlog
        obtain rfl : s.closed = k := by simpa using hlog
        exact absurd hk (Nat.not_succ_le_self _)
      · rw [h.logs fd' k]
        constructor
        · rintro ⟨hk, hkfd⟩
          refine ⟨Nat.lt_of_le_of_ne hk ?_, hkfd⟩
          rintro rfl
          rw [hfd] at hkfd
          exact heq (Option.some.inj hkfd).symm
        · exact fun hk => ⟨Nat.le_of_succ_le hk.1, hk.2⟩

theorem Rotating.keepOld (h : s.Rotating) {fd : ℕ} (hr : s.rotation = .closed fd) :
    (s.keepOld fd).Rotating := by
  have hs := h.stage
  simp only [Stage, hr] at hs
  exact ⟨h.ground, h.logs, h.log, ⟨hs.1, hs.2.1, hs.2.2, rfl⟩, h.pending, h.writes⟩

theorem Rotating.publish (h : s.Rotating) {fd : ℕ} (hr : s.rotation = .shifted fd) :
    (s.publish fd).Rotating := by
  have hs := h.stage
  simp only [Stage, hr] at hs
  obtain ⟨hlen, hnext, hclosed, hold⟩ := hs
  have hcur : s.files.length - 1 = s.current + 1 := by omega
  refine ⟨h.ground, h.logs, ?_, ⟨?_, ?_⟩, h.pending, h.writes⟩
  · show s.fdOf (s.files.length - 1) = some fd
    rw [hcur, hnext]
  · show s.files.length = s.files.length - 1 + 1
    omega
  · have hne : (s.publish fd).current ≠ 0 := by
      show s.files.length - 1 ≠ 0
      omega
    rw [Old, if_neg hne]
    refine ⟨?_, ?_⟩
    · show s.closed + 1 = s.files.length - 1
      omega
    · show s.fdOf s.closed = some s.oldFd
      rw [hclosed, hold, h.log]

theorem Rotating.load (h : s.Rotating) (thread : ℕ) (line : Bytes) :
    (s.load thread line).Rotating := by
  refine ⟨h.ground, h.logs, h.log, h.stage, fun t p hp => ?_, h.writes⟩
  simp only [LogProcess.load, Function.update_apply] at hp
  split_ifs at hp
  · obtain rfl := Option.some.inj hp
    exact h.log
  · exact h.pending t p hp

/-- A line goes to the file it was made for exactly if that file has not been closed. -/
theorem Rotating.target (h : s.Rotating) {thread : ℕ} {p : PendingLine}
    (hp : s.pending thread = some p) :
    s.table.lookup p.fd = some (.log p.number) ↔ s.closed ≤ p.number := by
  rw [h.logs]
  exact and_iff_left (h.pending thread p hp)

theorem Rotating.write (h : s.Rotating) {thread : ℕ} {p : PendingLine}
    (hp : s.pending thread = some p) : (s.write thread p).Rotating := by
  refine ⟨h.ground, h.logs, h.log, h.stage, fun t q hq => ?_, fun w hw => ?_⟩
  · simp only [LogProcess.write, Function.update_apply] at hq
    split_ifs at hq
    exact h.pending t q hq
  · rcases List.mem_append.mp hw with hold | hnew
    · exact h.writes w hold
    · obtain rfl := List.mem_singleton.mp hnew
      exact h.target hp

theorem Rotating.step (c : LoggerConfig) {e : LogEvent} (h : s.Rotating)
    (ht : step c s e = some t) : t.Rotating := by
  cases e with
  | openLog tm ok =>
    simp only [LogProcess.step] at ht
    split at ht
    · rename_i hr
      split_ifs at ht
      · exact Option.some.inj ht ▸ h.openNext hr _ _
      · exact Option.some.inj ht ▸ ⟨h.ground, h.logs, h.log, h.stage, h.pending, h.writes⟩
    · cases ht
  | closeOld =>
    simp only [LogProcess.step] at ht
    split at ht
    · rename_i hr
      exact Option.some.inj ht ▸ h.closeOldFd hr
    · cases ht
  | keepOld =>
    simp only [LogProcess.step] at ht
    split at ht
    · rename_i hr
      exact Option.some.inj ht ▸ h.keepOld hr
    · cases ht
  | publish =>
    simp only [LogProcess.step] at ht
    split at ht
    · rename_i hr
      exact Option.some.inj ht ▸ h.publish hr
    · cases ht
  | load thread e level message mem =>
    simp only [LogProcess.step] at ht
    split at ht
    · cases ht
    · split at ht
      · exact Option.some.inj ht ▸ h.load thread _
      · exact Option.some.inj ht ▸ h
  | write thread =>
    obtain ⟨p, hp, rfl⟩ := Option.map_eq_some_iff.mp ht
    exact h.write hp
  | openOther owner => exact Option.some.inj ht ▸ h.openOther owner
  | closeOther fd =>
    simp only [LogProcess.step] at ht
    split at ht
    · rename_i hfd
      exact Option.some.inj ht ▸ h.closeOther hfd
    · cases ht

/-- Descriptor 0 is in use and stands for nothing the server opened later. -/
theorem boot_ground {isDaemon : Bool} {env : DaemonEnv} {inherited table : Table ℕ Opened}
    (hi : ∀ n f, inherited.lookup n = some f → ∃ k, f = .inherited k)
    (h0 : isDaemon = false → 0 ∈ inherited) (hb : boot isDaemon env inherited = some table) :
    (∃ f, table.lookup 0 = some f ∧ Fixed f) ∧ ∀ fd k, table.lookup fd ≠ some (.log k) := by
  cases isDaemon with
  | true =>
    have hdaemon : toDaemon env inherited = some table := hb
    have hl := lookup_toDaemon hdaemon
    refine ⟨⟨.devNull, by rw [hl, if_pos (by omega)], Or.inr rfl⟩, fun fd k hk => ?_⟩
    rw [hl] at hk
    split_ifs at hk
    · cases hk
    · obtain ⟨n, hn⟩ := hi fd _ hk
      cases hn
  | false =>
    obtain rfl : inherited = table := Option.some.inj hb
    obtain ⟨f, hf⟩ := Option.isSome_iff_exists.mp (Finmap.lookup_isSome.mpr (h0 rfl))
    refine ⟨⟨f, hf, Or.inl (hi 0 f hf)⟩, fun fd k hk => ?_⟩
    obtain ⟨n, hn⟩ := hi fd _ hk
    cases hn

theorem Started.rotating {c : LoggerConfig} (h : Started c s) : s.Rotating := by
  obtain ⟨isDaemon, env, inherited, table, level, tm, hi, h0, hb, rfl⟩ := h
  obtain ⟨⟨f, hf, hfix⟩, hnone⟩ := boot_ground hi h0 hb
  have hfd (k : ℕ) : (initLog c level tm table).fdOf k =
      if k = 0 then some (lowest table) else none := by
    cases k <;> rfl
  have htable (fd : ℕ) : (initLog c level tm table).table.lookup fd =
      if fd = lowest table then some (.log 0) else table.lookup fd :=
    Table.lookup_insert_eq ..
  refine ⟨⟨f, ?_, hfix⟩, fun fd k => ?_, hfd 0, ⟨rfl, rfl, rfl⟩, by rintro t p ⟨⟩, by rintro w ⟨⟩⟩
  · rw [htable, if_neg (ne_lowest hf), hf]
  · rw [htable, hfd]
    show _ ↔ 0 ≤ k ∧ _
    by_cases hlow : fd = lowest table <;> by_cases hk : k = 0
    · simp [hlow, hk]
    · simp [hlow, hk, Ne.symm hk]
    · simp [hlow, hk, Ne.symm hlow, hnone]
    · simp [hlow, hk, hnone]

theorem Rotating.closed_eq (h : s.Rotating) : s.closed = s.files.length - s.keeps := by
  have hs := h.stage
  unfold Stage Old at hs
  unfold keeps
  split at hs <;> rename_i hr <;> simp only [hr]
  · split_ifs at hs <;> omega
  · split_ifs at hs <;> omega
  · omega
  · omega

theorem fdOf_of_lt {k : ℕ} (h : k < s.files.length) : ∃ fd, s.fdOf k = some fd := by
  rw [fdOf, List.getElem?_eq_getElem h]
  exact ⟨_, rfl⟩

/-- Closing the file before the last closes nothing else. -/
theorem Rotating.lookup_closeOldFd (h : s.Rotating) {x fd : ℕ} {f : Opened}
    (hr : s.rotation = .opened x) (hf : s.table.lookup fd = some f) (hlog : ∀ k, f ≠ .log k) :
    (s.closeOldFd x).table.lookup fd = some f := by
  rcases h.closeOldFd_cases hr with ⟨-, heq⟩ | ⟨-, hopen, -, heq⟩
  · rw [heq]
    exact hf
  · have hne : fd ≠ s.oldFd := by
      rintro rfl
      rw [hf] at hopen
      exact hlog _ (Option.some.inj hopen)
    rw [heq, Table.lookup_erase_eq, if_neg hne, hf]

/-- Apart from the close of its owner, no step touches a descriptor that is not a log file. -/
theorem Rotating.lookup_step (h : s.Rotating) {c : LoggerConfig} {e : LogEvent} {fd : ℕ}
    {f : Opened} (ht : LogProcess.step c s e = some t) (hf : s.table.lookup fd = some f)
    (hlog : ∀ k, f ≠ .log k) (he : e ≠ .closeOther fd) : t.table.lookup fd = some f := by
  cases e with
  | openLog tm ok =>
    simp only [LogProcess.step] at ht
    split at ht
    · split_ifs at ht
      · obtain rfl := Option.some.inj ht
        rw [lookup_openNext, if_neg (ne_lowest hf), hf]
      · exact Option.some.inj ht ▸ hf
    · cases ht
  | closeOld =>
    simp only [LogProcess.step] at ht
    split at ht
    · rename_i hr
      exact Option.some.inj ht ▸ h.lookup_closeOldFd hr hf hlog
    · cases ht
  | keepOld | publish =>
    simp only [LogProcess.step] at ht
    split at ht
    · exact Option.some.inj ht ▸ hf
    · cases ht
  | load thread e level message mem =>
    simp only [LogProcess.step] at ht
    split at ht
    · cases ht
    · split at ht <;> exact Option.some.inj ht ▸ hf
  | write thread =>
    obtain ⟨p, -, rfl⟩ := Option.map_eq_some_iff.mp ht
    exact hf
  | openOther owner =>
    obtain rfl := Option.some.inj ht
    rw [LogProcess.setTable, openFile, Table.lookup_insert_eq, if_neg (ne_lowest hf), hf]
  | closeOther n =>
    simp only [LogProcess.step] at ht
    split at ht
    · obtain rfl := Option.some.inj ht
      have hne : fd ≠ n := fun heq => he (heq ▸ rfl)
      rw [LogProcess.setTable, Table.lookup_erase_eq, if_neg hne, hf]
    · cases ht

/-- Rotation is safe up to one file, in a daemon and in a process whose descriptor 0 is in use. In
every state, whatever the threads and the rest of the server do between the statements of `open_log`
and `write_log`, a line that is about to be written goes to the file that was current when its
thread read `_log_fd`, exactly until that file is closed, which takes two further rotations. The
open log files are exactly the last two, and the last three between the `open` and the `close` of a
rotation. No step of the logger opens or closes a descriptor that stands for anything else; only a
line that comes after its file was closed can be written to one. -/
theorem log_rotation_safe {c : LoggerConfig}
    (h : Transition.Reach (step c) (Started c) (fun _ _ => True) s) :
    (∀ thread p, s.pending thread = some p →
      (s.table.lookup p.fd = some (.log p.number) ↔ s.closed ≤ p.number) ∧
        (s.files.length ≤ p.number + 2 → s.table.lookup p.fd = some (.log p.number))) ∧
    (∀ w ∈ s.writes, w.target = some (.log w.number) ↔ w.closed ≤ w.number) ∧
    (∀ k, (∃ fd, s.table.lookup fd = some (.log k)) ↔ s.closed ≤ k ∧ k < s.files.length) ∧
    s.closed = s.files.length - s.keeps ∧
    ∀ e t fd f, step c s e = some t → s.table.lookup fd = some f → (∀ k, f ≠ .log k) →
      e ≠ .closeOther fd → t.table.lookup fd = some f := by
  have hrot : s.Rotating := Transition.Reach.invariant (fun _ hs => hs.rotating)
    (fun _ _ _ hi _ ht => hi.step c ht) h
  have hclosed := hrot.closed_eq
  refine ⟨fun thread p hp => ⟨hrot.target hp, fun hfew => ?_⟩, hrot.writes, fun k => ?_, hclosed,
    fun e t fd f ht hf hlog he => hrot.lookup_step ht hf hlog he⟩
  · have hkeep := s.two_le_keeps
    rw [hrot.target hp]
    omega
  · constructor
    · rintro ⟨fd, hfd⟩
      obtain ⟨hk, hkfd⟩ := (hrot.logs fd k).mp hfd
      exact ⟨hk, fdOf_lt hkfd⟩
    · rintro ⟨hk, hlt⟩
      obtain ⟨fd, hkfd⟩ := fdOf_of_lt hlt
      exact ⟨fd, (hrot.logs fd k).mpr ⟨hk, hkfd⟩⟩

/-- The descriptors of a process that is started from a terminal. -/
def terminal : Table ℕ Opened :=
  ((Finmap.singleton 0 (.inherited 0)).insert 1 (.inherited 1)).insert 2 (.inherited 2)

def sampleConfig : LoggerConfig := ⟨ascii "log", ascii "info"⟩

def midnight : Tm := ⟨115, 3, 8, 0, 0, 0⟩

theorem terminal_started :
    Started sampleConfig (initLog sampleConfig .trace midnight terminal) := by
  refine ⟨false, ⟨true, true, true⟩, terminal, terminal, .trace, midnight, fun n f hf => ?_,
    fun _ => by decide, rfl, rfl⟩
  simp only [terminal, Table.lookup_insert_eq] at hf
  split_ifs at hf
  · exact ⟨2, (Option.some.inj hf).symm⟩
  · exact ⟨1, (Option.some.inj hf).symm⟩
  · rcases eq_or_ne n 0 with rfl | hn
    · exact ⟨0, by simpa using hf.symm⟩
    · simp [Finmap.lookup_eq_none.mpr, hn] at hf

/-- A worker makes a line, and the log is rotated before the worker writes it. -/
def lateLine : List LogEvent :=
  [.load 1 ⟨.trace, 1, midnight, 0⟩ .info (ascii "x") fun _ => 0, .openLog midnight true, .closeOld,
    .keepOld, .publish]

theorem lateLine_lands :
    ∃ s, Transition.Reach (step sampleConfig) (Started sampleConfig) (fun _ _ => True) s ∧
      (s.pending 1).map PendingLine.fd = some 3 ∧ s.logFd = 4 ∧
      s.table.lookup 3 = some (.log 0) := by
  have hrun : (Transition.run (step sampleConfig) (initLog sampleConfig .trace midnight terminal)
      lateLine).any (fun s => decide ((s.pending 1).map (fun p => (p.fd, p.number)) = some (3, 0) ∧
        s.logFd = 4 ∧ s.files.length = 2)) = true := by decide +kernel
  obtain ⟨s, hs, hp, hlog, hlen⟩ : ∃ s, Transition.Reach (step sampleConfig)
      (Started sampleConfig) (fun _ _ => True) s ∧ _ :=
    Transition.Reach.exists_of_run terminal_started (.of_forall (by simp) _) hrun
  obtain ⟨p, hpend, hpair⟩ := Option.map_eq_some_iff.mp hp
  obtain ⟨hfd, hnum⟩ := Prod.mk.inj hpair
  have hland := ((log_rotation_safe hs).1 1 p hpend).2 (by omega)
  rw [hfd, hnum] at hland
  exact ⟨s, hs, by rw [hpend, Option.map_some, hfd], hlog, hland⟩

-- Two rotations and a descriptor opened elsewhere: the line goes to the stranger.
example : (Transition.run (step sampleConfig) (initLog sampleConfig .trace midnight terminal)
    (lateLine ++ [.openLog midnight true, .closeOld, .openOther 7, .write 1])).any
      (fun s => s.writes.map LogWrite.target = [some (.other 7)]) = true := by
  decide +kernel

end Steps

end LogProcess

end EglComet
