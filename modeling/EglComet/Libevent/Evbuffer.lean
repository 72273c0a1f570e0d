import EglComet.Library.Window
import EglComet.Protobuf.Runtime
import Mathlib.Data.List.Basic

/-!
The buffers of libevent 2.0.21 as `buffer.c` keeps them: a linked list of chains,
each a window into a block of memory, and a pointer to the last chain with data.
Chains are never pinned, immutable or files here, which is all the server makes
of them. A result is absent where an assertion of `buffer.c` fails or a null
pointer would be followed; memory from `malloc` has arbitrary contents, and is
absent when `malloc` fails.
-/
namespace EglComet

open Protobuf

/-- `struct evbuffer_chain`: a block of memory and the part of it that is in use. -/
abbrev Chain := Window UInt8

/-- `struct evbuffer`. The chains are in the order of their `next` pointers, `first` and `last`
being the ends of the list. `last_with_datap` is the address of `first` or of a `next` pointer; it
is kept as the position of the chain that this pointer leads to. -/
structure Evbuffer where
  chains : List Chain := []
  lastWithDatap : ℕ := 0
  totalLen : ℕ := 0

/-- The contents of the memory that the next `malloc` returns. -/
abbrev Malloc := Option (ℕ → UInt8)

/-- The loop of `evbuffer_chain_new` that doubles the size until it is large enough. -/
def toAlloc (size n : ℕ) : ℕ :=
  if 0 < n ∧ n < size then toAlloc size (2 * n) else n
termination_by size - n

/-- `evbuffer_chain_new`: the 48 bytes of the header are part of the allocation, which starts at
`MIN_BUFFER_SIZE`. -/
def chainNew (mem : ℕ → UInt8) (size : ℕ) : Chain :=
  .fresh ((List.range (toAlloc (size + 48) 1024 - 48)).map mem)

/-- `evbuffer_chain_should_realign`. -/
def Chain.shouldRealign (c : Chain) (datlen : ℕ) : Bool :=
  decide (datlen ≤ c.buffer.length - c.off) && decide (c.off < c.buffer.length / 2) &&
    decide (c.off ≤ 2048)

/-- `evbuffer_chains_all_empty`. -/
def chainsAllEmpty (cs : List Chain) : Bool := cs.all fun c => decide (c.off = 0)

theorem le_toAlloc (size n : ℕ) (h : 0 < n) : size ≤ toAlloc size n ∧ n ≤ toAlloc size n := by
  fun_induction toAlloc size n with
  | case1 n hn ih =>
    have := ih (by omega)
    omega
  | case2 n hn => omega

theorem le_space_chainNew (mem : ℕ → UInt8) (size : ℕ) : size ≤ (chainNew mem size).space := by
  have := le_toAlloc (size + 48) 1024 (by decide)
  rw [chainNew, Window.space_fresh, List.length_map, List.length_range]
  omega

namespace Evbuffer

/-- The bytes of a list of chains. -/
def bytesOf (cs : List Chain) : Bytes := (cs.map Window.data).flatten

/-- The bytes in a buffer, in order. -/
def contents (b : Evbuffer) : Bytes := bytesOf b.chains

/-- Where the walk `while ((*ch) && (*ch)->off != 0) ch = &(*ch)->next` from `last_with_datap`
ends. -/
def victim (b : Evbuffer) : ℕ :=
  b.lastWithDatap +
    ((b.chains.drop b.lastWithDatap).takeWhile fun c => decide (c.off ≠ 0)).length

/-- `evbuffer_chain_insert`. -/
def chainInsert (b : Evbuffer) (c : Chain) : Option Evbuffer :=
  if b.chains.length ≤ b.lastWithDatap then
    if b.lastWithDatap = 0 then
      some { chains := [c], lastWithDatap := 0, totalLen := b.totalLen + c.off }
    else none
  else if b.victim = b.chains.length then
    some {
      chains := b.chains ++ [c]
      lastWithDatap := if c.off ≠ 0 then b.chains.length else b.lastWithDatap
      totalLen := b.totalLen + c.off }
  else if chainsAllEmpty (b.chains.drop b.victim) then
    some { b with chains := b.chains.take b.victim ++ [c], totalLen := b.totalLen + c.off }
  else none

/-- `evbuffer_free_trailing_empty_chains`. -/
def freeTrailingEmptyChains (b : Evbuffer) : Option Evbuffer :=
  if chainsAllEmpty (b.chains.drop b.victim) then
    some { b with chains := b.chains.take b.victim }
  else none

/-- `advance_last_with_data`. -/
def advanceLastWithData (b : Evbuffer) : Evbuffer :=
  if b.chains.length ≤ b.lastWithDatap then b
  else
    { b with lastWithDatap := b.lastWithDatap +
        ((b.chains.drop (b.lastWithDatap + 1)).takeWhile fun c => decide (c.off ≠ 0)).length }

theorem le_space_align {c : Chain} {datlen : ℕ} (h : c.shouldRealign datlen = true) :
    datlen ≤ c.align.space := by
  simp only [Chain.shouldRealign, Bool.and_eq_true, decide_eq_true_eq] at h
  rw [Window.space_align]
  exact h.1.1

theorem length_drop_le_chainNew (mem : ℕ → UInt8) {data : Bytes} {n size : ℕ}
    (h : data.length ≤ size) : (data.drop n).length ≤ (chainNew mem size).space := by
  have := le_space_chainNew mem size
  rw [List.length_drop]
  omega

/-- The chain that `evbuffer_add` makes for the data that do not fit into the chain `c`: it doubles
in size up to `EVBUFFER_CHAIN_MAX_AUTO_SIZE`. -/
def spillChain (mem : ℕ → UInt8) (c : Chain) (data : Bytes) : Chain :=
  let size := if c.buffer.length ≤ 2048 then c.buffer.length * 2 else c.buffer.length
  (chainNew mem (max size data.length)).append (data.drop c.space)
    (length_drop_le_chainNew mem (Nat.le_max_right _ _))

/-- `evbuffer_add` from the last chain `c` on: the data go behind its data, behind its data after
they were moved to the front, or partly there and partly into a new chain. -/
def addTo (mem : Malloc) (b : Evbuffer) (front : List Chain) (c : Chain) (data : Bytes) :
    Option (Bool × Evbuffer) :=
  if h : data.length ≤ c.space then
    some (true, { b with
      chains := front ++ [c.append data h], totalLen := b.totalLen + data.length })
  else if h : c.shouldRealign data.length = true then
    some (true, { b with
      chains := front ++ [c.align.append data (le_space_align h)]
      totalLen := b.totalLen + data.length })
  else
    match mem with
    | none => some (false, b)
    | some mem =>
      (chainInsert { b with
        chains := front ++ [c.append (data.take c.space) (List.length_take_le _ _)]
        totalLen := b.totalLen + c.space } (spillChain mem c data)).map (true, ·)

/-- `evbuffer_add`: whether it returned 0, and the buffer. -/
def add (mem : Malloc) (b : Evbuffer) (data : Bytes) : Option (Bool × Evbuffer) :=
  match b.chains.getLast? with
  | some c => b.addTo mem b.chains.dropLast c data
  | none =>
    match mem with
    | none => some (false, b)
    | some m =>
      let c := chainNew m data.length
      (b.chainInsert c).bind fun b => b.addTo mem b.chains.dropLast c data

/-- `evbuffer_add_buffer`: the source and the destination afterwards. All chains of the source are
linked behind those of the destination, or replace them if these hold no data. -/
def addBuffer (src dst : Evbuffer) : Evbuffer × Evbuffer :=
  if src.totalLen = 0 then (src, dst)
  else if dst.totalLen = 0 then ({}, src)
  else
    ({}, {
      chains := dst.chains ++ src.chains
      lastWithDatap := dst.chains.length + src.lastWithDatap
      totalLen := dst.totalLen + src.totalLen })

/-- The loop of `evbuffer_drain`: chains are freed while they hold no more than what remains. When
the chain at `last_with_datap` goes, or the chain whose `next` field it is, `last_with_datap` goes
back to `first`; otherwise it stays, one chain nearer to the front. -/
def drainChains : ℕ → ℕ → List Chain → ℕ × List Chain
  | k, _, [] => (k, [])
  | k, remaining, c :: cs =>
    if h : remaining < c.off then (k, c.advance remaining (Nat.le_of_lt h) :: cs)
    else drainChains (k - 1) (remaining - c.off) cs

def drain (b : Evbuffer) (len : ℕ) : Evbuffer :=
  if b.totalLen = 0 then b
  else if b.totalLen ≤ len then {}
  else
    let r := drainChains b.lastWithDatap len b.chains
    { chains := r.2, lastWithDatap := r.1, totalLen := b.totalLen - len }

/-- The loop of `evbuffer_copyout`. -/
def copyChains : ℕ → List Chain → Bytes
  | _, [] => []
  | n, c :: cs =>
    if n = 0 then []
    else if c.off ≤ n then c.data ++ copyChains (n - c.off) cs
    else c.data.take n

/-- `evbuffer_copyout`: the bytes it copies. -/
def copyout (b : Evbuffer) (datlen : ℕ) : Bytes := copyChains (min datlen b.totalLen) b.chains

/-- `evbuffer_remove`: the bytes copied out, and the buffer. -/
def remove (b : Evbuffer) (datlen : ℕ) : Bytes × Evbuffer :=
  let n := min datlen b.totalLen
  (b.copyout datlen, if n > 0 then b.drain n else b)

/-- What the loop of `evbuffer_remove_buffer` comes to: the chains it took as a whole, the chain it
stopped at with the number of bytes still wanted, and the rest. -/
structure Unlinked where
  moved : List Chain
  lastWithDatap : ℕ
  datlen : ℕ
  chain : Chain
  rest : List Chain
  lt : datlen < chain.off

/-- The loop of `evbuffer_remove_buffer`, which asserts that it does not take the chain at
`last_with_datap`. -/
def unlinkChains : ℕ → ℕ → List Chain → Option Unlinked
  | _, _, [] => none
  | k, datlen, c :: cs =>
    if h : datlen < c.off then some ⟨[], k, datlen, c, cs, h⟩
    else if k = 0 then none
    else (unlinkChains (k - 1) (datlen - c.off) cs).map fun r => { r with moved := c :: r.moved }

/-- The destination after whole chains were linked behind its chains with data. -/
def linkChains (dst : Evbuffer) (moved : List Chain) (nread : ℕ) : Option Evbuffer :=
  dst.freeTrailingEmptyChains.map fun d =>
    { ({ d with chains := d.chains ++ moved } : Evbuffer).advanceLastWithData with
      totalLen := d.totalLen + nread }

/-- `evbuffer_remove_buffer`: the source and the destination. Chains of which nothing was read stay
where they are; the result of `evbuffer_add` is not looked at. -/
def removeBuffer (mem : Malloc) (src dst : Evbuffer) (datlen : ℕ) :
    Option (Evbuffer × Evbuffer) :=
  if datlen = 0 then some (src, dst)
  else if src.totalLen ≤ datlen then some (addBuffer src dst)
  else
    (unlinkChains src.lastWithDatap datlen src.chains).bind fun r =>
      let nread := (bytesOf r.moved).length
      let kept := r.chain.advance r.datlen (Nat.le_of_lt r.lt) :: r.rest
      let src : Evbuffer := {
        chains := if nread = 0 then r.moved ++ kept else kept
        lastWithDatap :=
          if nread = 0 ∧ r.lastWithDatap ≠ 0 then src.lastWithDatap else r.lastWithDatap
        totalLen := src.totalLen - datlen }
      (if nread = 0 then some dst else dst.linkChains r.moved nread).bind fun dst =>
        (dst.add mem (r.chain.data.take r.datlen)).map fun x => (src, x.2)

/-- What the copying loop of `evbuffer_pullup` comes to: the bytes, whether the chain at
`last_with_datap` or the chain with that field was freed, the number of chains freed, and the chains
that are left. -/
structure Pulled where
  bytes : Bytes
  removedLastWithData : Bool
  removedLastWithDatap : Bool
  removed : ℕ
  rest : List Chain

/-- The copying loop of `evbuffer_pullup`, at the chain with position `i`; `k` is the position that
`last_with_datap` leads to. -/
def pullChains (k : ℕ) : ℕ → ℕ → List Chain → Pulled
  | _, _, [] => ⟨[], false, false, 0, []⟩
  | i, size, c :: cs =>
    if h : size < c.off then
      ⟨c.data.take size, false, false, 0, c.advance size (Nat.le_of_lt h) :: cs⟩
    else
      let r := pullChains k (i + 1) (size - c.off) cs
      ⟨c.data ++ r.bytes, decide (i = k) || r.removedLastWithData,
        decide (i + 1 = k) || r.removedLastWithDatap, r.removed + 1, r.rest⟩

theorem length_bytes_pullChains (k i size : ℕ) (cs : List Chain) :
    (pullChains k i size cs).bytes.length ≤ size := by
  induction cs generalizing i size with
  | nil => exact Nat.zero_le _
  | cons c cs ih =>
    rw [pullChains]
    split_ifs with h
    · exact List.length_take_le _ _
    · have := ih (i + 1) (size - c.off)
      simp only [List.length_append, Window.length_data]
      omega

/-- The end of `evbuffer_pullup`: the chain with the linearised bytes comes first, and
`last_with_datap` is repaired. The copying loop started at position `i`. -/
def relink (b : Evbuffer) (tmp : Chain) (i : ℕ) (r : Pulled) : Evbuffer where
  chains := tmp :: r.rest
  lastWithDatap :=
    if r.removedLastWithData then 0
    else if r.removedLastWithDatap then
      if r.rest.head?.any fun c => decide (c.off ≠ 0) then 1 else 0
    else if b.lastWithDatap = 0 then 0
    else b.lastWithDatap - (i + r.removed) + 1
  totalLen := b.totalLen

theorem length_bytes_le_space {c : Chain} {n k i : ℕ} {cs : List Chain}
    (h : n ≤ c.buffer.length - c.misalign) :
    (pullChains k i (n - c.off) cs).bytes.length ≤ c.space := by
  have := length_bytes_pullChains k i (n - c.off) cs
  have := c.fits
  rw [Window.space]
  omega

/-- `evbuffer_pullup` from its first chain `c` on: the bytes are in a row already, or are copied
behind those of the first chain, or into a new chain. -/
def pullupFrom (mem : Malloc) (b : Evbuffer) (n : ℕ) (c : Chain) (cs : List Chain) :
    Option Chain × Evbuffer :=
  if n ≤ c.off then (some c, b)
  else if h : n ≤ c.buffer.length - c.misalign then
    let r := pullChains b.lastWithDatap 1 (n - c.off) cs
    let tmp := c.append r.bytes (length_bytes_le_space h)
    (some tmp, b.relink tmp 1 r)
  else
    match mem with
    | none => (none, b)
    | some mem =>
      let r := pullChains b.lastWithDatap 0 n (c :: cs)
      let tmp := (chainNew mem n).append r.bytes
        (Nat.le_trans (length_bytes_pullChains _ _ _ _) (le_space_chainNew mem n))
      (some tmp, b.relink tmp 0 r)

/-- `evbuffer_pullup`: the chain whose first byte the returned pointer leads to, absent when null is
returned, and the buffer. -/
def pullup (mem : Malloc) (b : Evbuffer) (size : ℤ) : Option Chain × Evbuffer :=
  let size := if size < 0 then (b.totalLen : ℤ) else size
  if size = 0 ∨ (b.totalLen : ℤ) < size then (none, b)
  else
    match b.chains with
    | [] => (none, b)
    | c :: cs => b.pullupFrom mem size.toNat c cs

/-- What the loop of `_evbuffer_expand_fast` finds: the chains it looked at with the empty ones
rewound, the number of chains with space, their space, and whether that is enough. -/
structure Expansion where
  chains : List Chain
  used : ℕ
  avail : ℕ
  enough : Bool

/-- The loop of `_evbuffer_expand_fast`. A chain with data that is not the one at `last_with_datap`
fails an assertion. -/
def expandChains (datlen n : ℕ) : Bool → ℕ → ℕ → List Chain → Option Expansion
  | _, used, avail, [] => some ⟨[], used, avail, false⟩
  | isLastWithData, used, avail, c :: cs =>
    if ¬ isLastWithData ∧ c.off ≠ 0 then none
    else
      let c' := if h : c.off = 0 then c.rewind h else c
      let avail := avail + c'.space
      let used := if c.off ≠ 0 ∧ c.space = 0 then used else used + 1
      if datlen ≤ avail then some ⟨c' :: cs, used, avail, true⟩
      else if used = n then some ⟨c' :: cs, used, avail, false⟩
      else (expandChains datlen n false used avail cs).map fun r =>
        { r with chains := c' :: r.chains }

/-- `_evbuffer_expand_fast`: whether it returned 0, and the buffer. When `n` chains with space are
not enough, all empty chains are replaced by one that is. -/
def expandFast (mem : Malloc) (b : Evbuffer) (datlen n : ℕ) : Option (Bool × Evbuffer) :=
  if b.chains = [] then
    match mem with
    | none => some (false, b)
    | some mem => (b.chainInsert (chainNew mem datlen)).map (true, ·)
  else
    (expandChains datlen n true 0 0 (b.chains.drop b.lastWithDatap)).bind fun r =>
      let front := b.chains.take b.lastWithDatap
      if r.enough then some (true, { b with chains := front ++ r.chains })
      else if r.used < n then
        match mem with
        | none => some (false, { b with chains := front ++ r.chains })
        | some mem =>
          some (true, { b with
            chains := front ++ r.chains ++ [chainNew mem (datlen - r.avail)] })
      else
        match r.chains with
        | [] => none
        | c :: cs =>
          if ¬ chainsAllEmpty cs then none
          else if c.off = 0 then
            if b.lastWithDatap ≠ 0 then none
            else
              match mem with
              | none => some (false, {})
              | some mem =>
                some (true, {
                  chains := [chainNew mem datlen], lastWithDatap := 0, totalLen := b.totalLen })
          else
            match mem with
            | none => some (false, { b with chains := front ++ [c] })
            | some mem =>
              some (true, { b with chains := front ++ [c, chainNew mem (datlen - c.space)] })

/-- `_evbuffer_read_setup_vecs` with `exact` set: the lengths of the vectors. -/
def readSetupVecs : ℕ → ℕ → List Chain → Option (List ℕ)
  | 0, _, _ => some []
  | n + 1, howmuch, cs =>
    if howmuch = 0 then some []
    else
      match cs with
      | [] => none
      | c :: cs =>
        let avail := min c.space howmuch
        (readSetupVecs n (howmuch - avail) cs).map (avail :: ·)

/-- The bytes that `readv` stored and the loop of `evbuffer_read` that takes them into use, one
vector after the other: the chains, and the position of the chain where they end. -/
def commitRead : ℕ → Bytes → List Chain → List Chain × Option ℕ
  | 0, _, cs => (cs, none)
  | _, _, [] => ([], none)
  | n + 1, received, c :: cs =>
    if h : c.space < received.length then
      let r := commitRead n (received.drop c.space) cs
      (c.append (received.take c.space) (List.length_take_le _ _) :: r.1, r.2.map (· + 1))
    else (c.append received (Nat.le_of_not_lt h) :: cs, some 0)

/-- How many bytes `evbuffer_read` asks for when `ioctl` says that `readable` can be read. -/
def readSize (readable howmuch : ℤ) : ℕ :=
  let n := if readable ≤ 0 ∨ readable > 4096 then 4096 else readable
  (if howmuch < 0 ∨ howmuch > n then n else howmuch).toNat

/-- `evbuffer_read`: its result and the buffer. `readv` fails or delivers at most what it was asked
for of the bytes that have arrived. -/
def read (mem : Malloc) (b : Evbuffer) (readable howmuch : ℤ) (readv : Option Bytes) :
    Option (ℤ × Evbuffer) :=
  let howmuch := readSize readable howmuch
  (b.expandFast mem howmuch 4).bind fun e =>
    if e.1 = false then some (-1, e.2)
    else
      let b := e.2
      (b.chains[b.lastWithDatap]?).bind fun c =>
        let first := if c.space = 0 then b.lastWithDatap + 1 else b.lastWithDatap
        (readSetupVecs 4 howmuch (b.chains.drop first)).bind fun vecs =>
          match readv with
          | none => some (-1, b)
          | some arrived =>
            let received := arrived.take howmuch
            if received = [] then some (0, b)
            else
              let r := commitRead vecs.length received (b.chains.drop first)
              some (received.length, {
                chains := b.chains.take first ++ r.1
                lastWithDatap := (r.2.map (first + ·)).getD b.lastWithDatap
                totalLen := b.totalLen + received.length })

/-- The vectors that `evbuffer_write_iovec` hands to `writev`, at most `n` of them. -/
def iovecs : ℕ → ℕ → List Chain → List Bytes
  | 0, _, _ => []
  | _, _, [] => []
  | n + 1, howmuch, c :: cs =>
    if howmuch = 0 then []
    else if c.off ≤ howmuch then c.data :: iovecs n (howmuch - c.off) cs
    else [c.data.take howmuch]

/-- `evbuffer_write_atmost` with `NUM_WRITE_IOVEC` = 128: the bytes that went out, and the buffer.
`writev` fails or takes some of the bytes. -/
def writeAtmost (b : Evbuffer) (howmuch : ℤ) (writev : Option ℕ) : Bytes × Evbuffer :=
  let n := if howmuch < 0 ∨ howmuch > (b.totalLen : ℤ) then b.totalLen else howmuch.toNat
  let written := ((iovecs 128 n b.chains).flatten).take (writev.getD 0)
  (written, if written = [] then b else b.drain written.length)

end Evbuffer

end EglComet
