import EglComet.AnalyseReq.RoundTrip
import EglComet.WorkThread.HttpRequests
import Mathlib.Data.List.GetD
import Mathlib.Data.Nat.Digits.Defs

/-!
The lines of the log. `write_log` prints a prefix and a message into an array of
`MAX_MSG_LENGTH` bytes, cuts the message off where the array ends, and then puts
a line feed and a zero byte behind the text it finds there. A text that was cut
off leaves room for one of the two.
-/
namespace EglComet

open Protobuf MachineInt

/-- `LOG_LEVEL`. -/
inductive LogLevel where
  | fatal | error | warn | info | debug | trace
  deriving DecidableEq, Repr

def LogLevel.value : LogLevel → ℕ
  | .fatal => 0
  | .error => 1
  | .warn => 2
  | .info => 3
  | .debug => 4
  | .trace => 5

/-- The level named in the configuration; an unknown name logs everything. -/
def getLogLevel (logLevel : Bytes) : LogLevel :=
  if logLevel = ascii "fatal" then .fatal
  else if logLevel = ascii "error" then .error
  else if logLevel = ascii "warn" then .warn
  else if logLevel = ascii "info" then .info
  else if logLevel = ascii "debug" then .debug
  else if logLevel = ascii "trace" then .trace
  else .trace

def getLevelName : LogLevel → Bytes
  | .fatal => ascii "[FATAL]"
  | .error => ascii "[ERROR]"
  | .warn => ascii "[WARN ]"
  | .info => ascii "[INFO ]"
  | .debug => ascii "[DEBUG]"
  | .trace => ascii "[TRACE]"

def maxMsgLength : ℕ := 1024

/-- The fields of `struct tm` that are printed. -/
structure Tm where
  year : Int32
  mon : Int32
  mday : Int32
  hour : Int32
  min : Int32
  sec : Int32
  deriving DecidableEq, Repr

/-- What `write_log` reads besides its arguments: `_log_level`, the id of the thread, and the
time. -/
structure LogEnv where
  logLevel : LogLevel
  threadId : Int32
  tm : Tm
  usec : Int32
  deriving DecidableEq, Repr

/-- `%0<width>d`: the sign counts towards the width. -/
def printInt (width : ℕ) (n : ℤ) : Bytes :=
  let sign : Bytes := if n < 0 then [45] else []
  let digits := ascii n.natAbs.repr
  sign ++ List.replicate (width - (sign.length + digits.length)) 48 ++ digits

/-- The text in front of every message. -/
def logPrefix (e : LogEnv) (logLevel : LogLevel) : Bytes :=
  ascii "[" ++ printInt 4 (e.tm.year + 1900).toInt ++ ascii "-" ++
    printInt 2 (e.tm.mon + 1).toInt ++ ascii "-" ++ printInt 2 e.tm.mday.toInt ++ ascii " " ++
    printInt 2 e.tm.hour.toInt ++ ascii ":" ++ printInt 2 e.tm.min.toInt ++ ascii ":" ++
    printInt 2 e.tm.sec.toInt ++ ascii "." ++ printInt 6 e.usec.toInt ++ ascii "] [" ++
    printInt 0 e.threadId.toInt ++ ascii "] " ++ getLevelName logLevel ++ ascii ":"

/-- An array of `char`: the memory from its first byte on, and the indices written so far. -/
structure CharArray where
  mem : ℕ → UInt8
  written : List ℕ

def CharArray.store (a : CharArray) (off : ℕ) (bs : Bytes) : CharArray :=
  ⟨blit a.mem off bs, a.written ++ List.range' off bs.length⟩

/-- An array that holds a C string. -/
structure CString extends CharArray where
  terminated : ∃ i, mem i = 0

def CString.strlen (a : CString) : ℕ := Nat.find a.terminated

theorem blit_zero_byte (mem : ℕ → UInt8) (off : ℕ) (text : Bytes) :
    blit mem off (text ++ [0]) (off + text.length) = 0 := by
  rw [blit_inside _ (by simp)]
  simp [byteAt]

/-- Storing a text with its terminator makes a C string. -/
def CharArray.storeText (a : CharArray) (off : ℕ) (text : Bytes) : CString :=
  ⟨a.store off (text ++ [0]), off + text.length, blit_zero_byte a.mem off text⟩

/-- `sprintf` of a format whose result is `text`: the count it returns, and the array. -/
def sprintf (a : CharArray) (text : Bytes) : ℤ × CString := (text.length, a.storeText 0 text)

/-- `vsnprintf` of a format whose result is `text`, at an offset of the array. -/
def vsnprintf (a : CString) (off size : ℕ) (text : Bytes) : CString :=
  if size = 0 then a else a.toCharArray.storeText off (text.take (size - 1))

/-- What a call of `write_log` does: the indices of `buffer` that it writes, and the bytes that it
hands to `write`, if it gets there. -/
structure Logged where
  written : List ℕ
  output : Option Bytes
  deriving DecidableEq, Repr

/-- `write_log`, for a format whose result is `message`; `mem` is the memory that `buffer` lies
in, with what it held before. -/
def writeLog (e : LogEnv) (logLevel : LogLevel) (message : Bytes) (mem : ℕ → UInt8) : Logged :=
  if logLevel.value > e.logLevel.value then ⟨[], none⟩
  else
    let (len, buffer) := sprintf ⟨mem, []⟩ (logPrefix e logLevel)
    if len < 0 then ⟨buffer.written, none⟩
    else
      let buffer := vsnprintf buffer len.toNat (sizeT (maxMsgLength - len)) message
      let len := buffer.strlen
      let buffer := (buffer.toCharArray.store len [0x0a]).store (len + 1) [0]
      ⟨buffer.written, some ((List.range (len + 1)).map buffer.mem)⟩

section Printing

theorem length_printInt_le {width : ℕ} (hw : width ≤ 11) (n : Int32) :
    (printInt width n.toInt).length ≤ 11 := by
  have hlo := n.le_toInt
  have hhi := n.toInt_lt
  have hdigits : (ascii n.toInt.natAbs.repr).length ≤ 10 := by
    rw [length_ascii_repr, Nat.length_toDigits_le_iff (by decide) (by decide)]
    omega
  simp only [printInt, List.length_append, List.length_replicate]
  split_ifs <;> simp only [List.length_cons, List.length_nil] <;> omega

theorem zero_notMem_ascii_repr (n : ℕ) : 0 ∉ ascii n.repr := by
  intro h0
  exact (ne_of_isDigit (isDigit_ascii_repr n 0 h0)).1 rfl

theorem zero_notMem_printInt (width : ℕ) (n : ℤ) : 0 ∉ printInt width n := by
  have hdigits := zero_notMem_ascii_repr n.natAbs
  have hsign : (0 : UInt8) ∉ (if n < 0 then [45] else []) := by
    split_ifs <;> decide
  simp only [printInt, List.mem_append, List.mem_replicate, not_or]
  exact ⟨⟨hsign, fun h0 => absurd h0.2 (by decide)⟩, hdigits⟩

theorem length_getLevelName (logLevel : LogLevel) : (getLevelName logLevel).length = 7 := by
  cases logLevel <;> rfl

theorem zero_notMem_getLevelName (logLevel : LogLevel) : 0 ∉ getLevelName logLevel := by
  cases logLevel <;> decide

variable (e : LogEnv) (logLevel : LogLevel)

/-- Eight numbers of at most eleven characters, and twenty other characters. -/
theorem length_logPrefix_le : (logPrefix e logLevel).length ≤ 108 := by
  have hyear := length_printInt_le (show 4 ≤ 11 by decide) (e.tm.year + 1900)
  have hmon := length_printInt_le (show 2 ≤ 11 by decide) (e.tm.mon + 1)
  have hmday := length_printInt_le (show 2 ≤ 11 by decide) e.tm.mday
  have hhour := length_printInt_le (show 2 ≤ 11 by decide) e.tm.hour
  have hmin := length_printInt_le (show 2 ≤ 11 by decide) e.tm.min
  have hsec := length_printInt_le (show 2 ≤ 11 by decide) e.tm.sec
  have husec := length_printInt_le (show 6 ≤ 11 by decide) e.usec
  have hid := length_printInt_le (show 0 ≤ 11 by decide) e.threadId
  have hone (text : String) (h : text.toList.length = 1) : (ascii text).length = 1 := by
    rw [ascii, List.length_map, h]
  have hids : (ascii "] [").length = 3 ∧ (ascii "] ").length = 2 := by decide
  unfold logPrefix
  simp only [List.length_append, length_getLevelName, hids, hone "[" rfl, hone "-" rfl,
    hone " " rfl, hone ":" rfl, hone "." rfl]
  omega

example : logPrefix ⟨.debug, 0, ⟨115, 3, 8, 21, 26, 0⟩, 71⟩ .info =
    ascii "[2015-04-08 21:26:00.000071] [0] [INFO ]:" := by decide +kernel

theorem zero_notMem_logPrefix : 0 ∉ logPrefix e logLevel := by
  unfold logPrefix
  simp only [List.mem_append, zero_notMem_printInt, zero_notMem_getLevelName, or_false, not_or]
  decide

end Printing

section Strings

variable {a : CharArray} {mem : ℕ → UInt8} {p q bs : Bytes}

/-- A write over an earlier one that is not longer. -/
theorem blit_over (off : ℕ) (h : p.length ≤ q.length) :
    blit (blit mem off p) off q = blit mem off q := by
  funext i
  unfold blit
  split_ifs <;> first | rfl | omega

/-- A text printed behind another one, over its terminator. -/
theorem mem_vsnprintf_sprintf {size : ℕ} (hsize : 0 < size) :
    (vsnprintf (sprintf a p).2 p.length size q).mem =
      blit a.mem 0 (p ++ q.take (size - 1) ++ [0]) := by
  rw [vsnprintf, if_neg (by omega)]
  have hfirst : blit a.mem 0 (p ++ [0]) = blit (blit a.mem 0 p) p.length [0] := by
    rw [← blit_blit, Nat.zero_add]
  have hboth : blit a.mem 0 (p ++ q.take (size - 1) ++ [0]) =
      blit (blit a.mem 0 p) p.length (q.take (size - 1) ++ [0]) := by
    rw [List.append_assoc, ← blit_blit, Nat.zero_add]
  rw [hboth]
  show blit (blit a.mem 0 (p ++ [0])) p.length (q.take (size - 1) ++ [0]) = _
  rw [hfirst, blit_over _ (by simp)]

/-- A zero byte stands behind the C string that an array with a terminator begins with. -/
theorem exists_cstr_terminated (bs : Bytes) : ∃ rest, bs ++ [0] = cstr bs ++ 0 :: rest := by
  induction bs with
  | nil => exact ⟨[], rfl⟩
  | cons b bs ih =>
    by_cases hb : b = 0
    · subst hb
      exact ⟨bs ++ [0], rfl⟩
    · obtain ⟨rest, hrest⟩ := ih
      refine ⟨rest, ?_⟩
      have hcstr : cstr (b :: bs) = b :: cstr bs := by simp [cstr, hb]
      rw [hcstr, List.cons_append, hrest, List.cons_append]

/-- An array that a text with its terminator was stored in begins with the C string of the text. -/
theorem blit_cstr (mem : ℕ → UInt8) (bs : Bytes) :
    (∀ i < (cstr bs).length, blit mem 0 (bs ++ [0]) i = byteAt (cstr bs) i) ∧
      blit mem 0 (bs ++ [0]) (cstr bs).length = 0 := by
  obtain ⟨rest, hrest⟩ := exists_cstr_terminated bs
  have hread : ∀ i ≤ (cstr bs).length,
      blit mem 0 (bs ++ [0]) i = byteAt (cstr bs ++ 0 :: rest) i := by
    intro i hi
    have hlt : i < (cstr bs ++ 0 :: rest).length := by
      rw [List.length_append, List.length_cons]
      omega
    have hin : blit mem 0 (cstr bs ++ 0 :: rest) (0 + i) = byteAt (cstr bs ++ 0 :: rest) i :=
      blit_inside mem hlt
    rwa [Nat.zero_add, ← congrArg (blit mem 0) hrest] at hin
  constructor
  · intro i hi
    rw [hread i hi.le, byteAt_append _ hi]
  · rw [hread _ le_rfl]
    exact byteAt_append_right (cstr bs) (0 :: rest) 0

theorem strlen_of_blit {c : CString} (h : c.mem = blit mem 0 (bs ++ [0])) :
    c.strlen = (cstr bs).length := by
  obtain ⟨htext, hend⟩ := blit_cstr mem bs
  rw [CString.strlen, Nat.find_eq_iff, h]
  constructor
  · exact hend
  · intro i hi
    rw [htext i hi, byteAt, List.getD_eq_getElem _ _ hi]
    have hmem := List.mem_takeWhile_imp (List.getElem_mem hi)
    simpa using hmem

theorem map_range_eq {f : ℕ → UInt8} (h : ∀ i < bs.length, f i = byteAt bs i) :
    (List.range bs.length).map f = bs := by
  have hall : (List.range (0 + bs.length)).map f = (List.range 0).map f ++ bs := by
    apply map_range_append
    intro i hi
    rw [Nat.zero_add]
    exact h i hi
  rwa [Nat.zero_add] at hall

/-- The C string of an array and the line feed that takes the place of its terminator. -/
theorem map_range_newline {c : CString} (h : c.mem = blit mem 0 (bs ++ [0])) (tail : Bytes) :
    (List.range (c.strlen + 1)).map (blit (blit c.mem c.strlen [0x0a]) (c.strlen + 1) tail) =
      cstr bs ++ [0x0a] := by
  have hlen : c.strlen = (cstr bs).length := strlen_of_blit h
  have hline : c.strlen + 1 = (cstr bs ++ [0x0a]).length := by
    rw [hlen, List.length_append, List.length_singleton]
  rw [hline]
  apply map_range_eq
  intro i hi
  rw [← hline] at hi ⊢
  rw [blit_outside _ (by omega)]
  rcases Nat.lt_or_eq_of_le (Nat.le_of_lt_succ hi) with hlt | rfl
  · rw [blit_outside _ (by omega), h, byteAt_append _ (by omega)]
    exact (blit_cstr mem bs).1 i (by omega)
  · have hput : blit c.mem c.strlen [0x0a] (c.strlen + 0) = byteAt [0x0a] 0 :=
      blit_inside c.mem (by decide)
    have hlast := byteAt_append_right (cstr bs) [0x0a] 0
    rw [← hlen] at hlast
    exact hput.trans hlast.symm

end Strings

/-- The text of a line: the prefix, and the message as far as it is a C string. -/
def logText (e : LogEnv) (logLevel : LogLevel) (message : Bytes) : Bytes :=
  logPrefix e logLevel ++ cstr message

section Line

variable (e : LogEnv) (logLevel : LogLevel) (message : Bytes) (mem : ℕ → UInt8)

theorem logPrefix_fits : (logPrefix e logLevel).length < maxMsgLength - 1 :=
  (length_logPrefix_le e logLevel).trans_lt (by decide)

/-- What stands in the array after the message has been cut off. -/
theorem cstr_cut : cstr (logPrefix e logLevel ++
      message.take (maxMsgLength - (logPrefix e logLevel).length - 1)) =
    (logText e logLevel message).take (maxMsgLength - 1) := by
  have hfits : (logPrefix e logLevel).take (maxMsgLength - 1) = logPrefix e logLevel :=
    List.take_of_length_le (logPrefix_fits e logLevel).le
  rw [cstr_append (zero_notMem_logPrefix e logLevel), logText, List.take_append, hfits, cstr,
    ← List.take_takeWhile, Nat.sub_right_comm]
  rfl

/-- The array of a call that is not filtered out, when both texts have been printed. -/
def printed : CString :=
  vsnprintf (sprintf ⟨mem, []⟩ (logPrefix e logLevel)).2 (logPrefix e logLevel).length
    (maxMsgLength - (logPrefix e logLevel).length) message

theorem mem_printed : (printed e logLevel message mem).mem =
    blit mem 0 (logPrefix e logLevel ++
      message.take (maxMsgLength - (logPrefix e logLevel).length - 1) ++ [0]) := by
  have hfits := logPrefix_fits e logLevel
  have hroom : 0 < maxMsgLength - (logPrefix e logLevel).length := by omega
  rw [printed, mem_vsnprintf_sprintf hroom]

theorem strlen_printed : (printed e logLevel message mem).strlen =
    ((logText e logLevel message).take (maxMsgLength - 1)).length := by
  rw [strlen_of_blit (mem_printed e logLevel message mem), cstr_cut]

/-- What a call does that is not filtered out. -/
theorem writeLog_eq (h : logLevel.value ≤ e.logLevel.value) :
    writeLog e logLevel message mem =
      ⟨(printed e logLevel message mem).written ++ [(printed e logLevel message mem).strlen] ++
          [(printed e logLevel message mem).strlen + 1],
        some ((logText e logLevel message).take (maxMsgLength - 1) ++ [0x0a])⟩ := by
  have hfits := logPrefix_fits e logLevel
  have hsize : sizeT (maxMsgLength - ((logPrefix e logLevel).length : ℤ)) =
      maxMsgLength - (logPrefix e logLevel).length := by
    have hmax : maxMsgLength = 1024 := rfl
    rw [sizeT_of_nonneg (by omega) (by omega)]
    omega
  have hout := map_range_newline (mem_printed e logLevel message mem) [0]
  rw [cstr_cut] at hout
  rw [← hout]
  unfold writeLog
  rw [if_neg (by omega), sprintf]
  simp only
  rw [if_neg (by omega), Int.toNat_natCast, hsize]
  have hprinted : vsnprintf ((⟨mem, []⟩ : CharArray).storeText 0 (logPrefix e logLevel))
      (logPrefix e logLevel).length (maxMsgLength - (logPrefix e logLevel).length) message =
        printed e logLevel message mem := by
    rw [printed, sprintf]
  rw [hprinted]
  generalize printed e logLevel message mem = c
  rfl

/-- The two texts are printed inside the array. -/
theorem written_printed : ∀ i ∈ (printed e logLevel message mem).written, i < maxMsgLength := by
  have hfits := logPrefix_fits e logLevel
  have hcut := List.length_take_le (maxMsgLength - (logPrefix e logLevel).length - 1) message
  have hroom : maxMsgLength - (logPrefix e logLevel).length ≠ 0 := by omega
  intro i hi
  rw [printed, vsnprintf, if_neg hroom] at hi
  simp only [sprintf, CharArray.storeText, CharArray.store, List.nil_append, List.length_append,
    List.length_singleton, List.mem_append, List.mem_range'_1] at hi
  omega

/-- The writes of a call stay in the array exactly if the line is filtered out or its text leaves
room for two more bytes. What is handed to `write` is the text, as far as it has room, and one line
feed. -/
theorem log_line_in_bounds_iff :
    ((∀ i ∈ (writeLog e logLevel message mem).written, i < maxMsgLength) ↔
      e.logLevel.value < logLevel.value ∨
        (logText e logLevel message).length < maxMsgLength - 1) ∧
    (writeLog e logLevel message mem).output =
      if e.logLevel.value < logLevel.value then none
      else some ((logText e logLevel message).take (maxMsgLength - 1) ++ [0x0a]) := by
  by_cases h : e.logLevel.value < logLevel.value
  · rw [writeLog, if_pos h, if_pos h]
    exact ⟨iff_of_true (fun i hi => absurd hi List.not_mem_nil) (Or.inl h), rfl⟩
  · rw [writeLog_eq e logLevel message mem (by omega), if_neg h]
    refine ⟨?_, rfl⟩
    have hmax : maxMsgLength = 1024 := rfl
    simp only [List.forall_mem_append, List.forall_mem_singleton, strlen_printed, List.length_take]
    constructor
    · intro hall
      right
      omega
    · intro hroom
      refine ⟨⟨written_printed e logLevel message mem, ?_⟩, ?_⟩ <;> omega

/-- A text that was cut off has its terminator written behind the array. -/
theorem maxMsgLength_mem_written (h : logLevel.value ≤ e.logLevel.value)
    (hcut : maxMsgLength - 1 ≤ (logText e logLevel message).length) :
    maxMsgLength ∈ (writeLog e logLevel message mem).written := by
  have hlast : (printed e logLevel message mem).strlen + 1 = maxMsgLength := by
    rw [strlen_printed, List.length_take, min_eq_left hcut]
    rfl
  rw [writeLog_eq e logLevel message mem h, hlast]
  exact List.mem_append_right _ List.mem_cons_self

end Line

/-- The message of the macros `log_fatal` to `log_trace`: the position in the source, and the
formatted text. -/
def logMessage (file : Bytes) (line : ℕ) (text : Bytes) : Bytes :=
  ascii "[" ++ cstr file ++ ascii "(" ++ printInt 0 line ++ ascii ")]: " ++ text

/-- What `redis_login_callback` logs about a login that redis does not know. -/
def unknownLoginText (d : LoginData) : Bytes :=
  ascii "login redis check error. start http check. id:" ++ ascii d.id.toNat.repr ++
    ascii ", token:" ++ cstr d.token

theorem zero_notMem_cstr (bs : Bytes) : 0 ∉ cstr bs :=
  cstr_eq_self_iff.mp List.takeWhile_idem

theorem zero_notMem_unknownLoginText (d : LoginData) : 0 ∉ unknownLoginText d := by
  have hhead : 0 ∉ ascii "login redis check error. start http check. id:" := by decide
  have htoken : 0 ∉ ascii ", token:" := by decide
  simp only [unknownLoginText, List.mem_append, hhead, htoken, zero_notMem_ascii_repr,
    zero_notMem_cstr, or_self, not_false_eq_true]

theorem zero_notMem_logMessage {text : Bytes} (h : 0 ∉ text) (file : Bytes) (line : ℕ) :
    0 ∉ logMessage file line text := by
  have hopen : 0 ∉ ascii "[" ∧ 0 ∉ ascii "(" ∧ 0 ∉ ascii ")]: " := by decide
  simp only [logMessage, List.mem_append, hopen, zero_notMem_cstr, zero_notMem_printInt, h,
    or_self, not_false_eq_true]

/-- A token of `MAX_MSG_LENGTH - 1` characters is enough for a write behind the array. -/
theorem long_token_overflows {e : LogEnv} (file : Bytes) (line : ℕ) {d : LoginData}
    (mem : ℕ → UInt8) (h : LogLevel.info.value ≤ e.logLevel.value)
    (htoken : maxMsgLength - 1 ≤ (cstr d.token).length) :
    maxMsgLength ∈
      (writeLog e .info (logMessage file line (unknownLoginText d)) mem).written := by
  apply maxMsgLength_mem_written e .info _ mem h
  have hplain := zero_notMem_logMessage (zero_notMem_unknownLoginText d) file line
  rw [logText, cstr_eq_self_iff.mpr hplain]
  simp only [logMessage, unknownLoginText, List.length_append]
  omega

/-- The level of the shipped configuration, and some time of a day. -/
def shippedEnv : LogEnv where
  logLevel := getLogLevel (ascii "debug")
  threadId := 0
  tm := ⟨115, 3, 8, 21, 26, 0⟩
  usec := 0

/-- A login with a token of 1023 characters. -/
def longTokenLogin : LoginData := { id := 7, token := List.replicate 1023 0x61 }

/-- The terminator of its line is written behind the array. -/
theorem longToken_line_overflows :
    ¬ ∀ i ∈ (writeLog shippedEnv .info
        (logMessage (ascii "work_thread.cc") 416 (unknownLoginText longTokenLogin))
        fun _ => 0).written, i < maxMsgLength := by
  intro hall
  have hplain : 0 ∉ longTokenLogin.token := by
    intro h0
    exact absurd (List.eq_of_mem_replicate h0) (by decide)
  have htoken : maxMsgLength - 1 ≤ (cstr longTokenLogin.token).length := by
    rw [cstr_eq_self_iff.mpr hplain, longTokenLogin, List.length_replicate]
    decide
  exact absurd (hall _ (long_token_overflows _ 416 _ (by decide) htoken)) (lt_irrefl _)

end EglComet
