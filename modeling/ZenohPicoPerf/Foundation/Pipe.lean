import ZenohPicoPerf.Foundation.Table
import Mathlib.Algebra.BigOperators.Group.List.Basic
import Mathlib.Algebra.GroupWithZero.Nat

/-!
# Byte streams and a listening socket

A pipe delivers what was written to it once, in order and without loss, in
pieces of any size.  That is a field of the type, so no operation can build a
pipe that lost, repeated or reordered anything.

A listener collects the pipes of its connections in the order in which they
were set up and serves them in that order, one at a time.  A connection can be
written to before it is accepted, and what is left in its pipe when the next
one is accepted stays there.

## Main results

* `Listener.written_eq` — everything written was taken or is buffered.
* `Listener.write_eq_some`, `Listener.read_eq_some` — what the operations do.
* `Listener.log_read` — reading extends what was read so far.
* `Listener.encode_write`, `Listener.encode_accept`, `Listener.encode_read` —
  records of one length on streams of bytes are records on streams of records.
-/

namespace ZenohPicoPerf.Foundation

variable {β : Type*}

/-- What was written to a stream, what was taken from it, and what is between
the two. -/
structure Pipe (β : Type*) where
  written : List β
  taken : List β
  buffered : List β
  intact : taken ++ buffered = written
deriving DecidableEq, Repr

namespace Pipe

def empty : Pipe β :=
  { written := [], taken := [], buffered := [], intact := rfl }

def push (p : Pipe β) (bs : List β) : Pipe β where
  written := p.written ++ bs
  taken := p.taken
  buffered := p.buffered ++ bs
  intact := by rw [← List.append_assoc, p.intact]

/-- Take the next `n` elements, or all if there are fewer. -/
def pull (p : Pipe β) (n : Nat) : Pipe β where
  written := p.written
  taken := p.taken ++ p.buffered.take n
  buffered := p.buffered.drop n
  intact := by rw [List.append_assoc, List.take_append_drop, p.intact]

theorem length_eq (p : Pipe β) :
    p.written.length = p.taken.length + p.buffered.length := by
  rw [← p.intact, List.length_append]

/-- What was taken is the beginning of what was written. -/
theorem taken_prefix (p : Pipe β) : p.taken <+: p.written :=
  ⟨p.buffered, p.intact⟩

end Pipe

/-- The connections of a listening socket; the first `accepted` of them have
been accepted. -/
structure Listener (β : Type*) where
  pipes : List (Pipe β)
  accepted : Nat
deriving DecidableEq, Repr

namespace Listener

def init : Listener β := { pipes := [], accepted := 0 }

def connect (l : Listener β) : Listener β :=
  { l with pipes := l.pipes ++ [Pipe.empty] }

/-- Write to connection `i`. -/
def write (l : Listener β) (i : Nat) (bs : List β) : Option (Listener β) :=
  (l.pipes[i]?).map fun p => { l with pipes := l.pipes.set i (p.push bs) }

def accept (l : Listener β) : Option (Listener β) :=
  if l.accepted < l.pipes.length then
    some { l with accepted := l.accepted + 1 }
  else none

/-- Read `n` elements from the connection that was accepted last; there are
as many. -/
def read (l : Listener β) (n : Nat) : Option (List β × Listener β) :=
  match l.accepted with
  | 0 => none
  | i + 1 =>
      (l.pipes[i]?).bind fun p =>
        if n ≤ p.buffered.length then
          some (p.buffered.take n, { l with pipes := l.pipes.set i (p.pull n) })
        else none

theorem write_eq_some {l l' : Listener β} {i : Nat} {bs : List β} :
    l.write i bs = some l' ↔
      ∃ p, l.pipes[i]? = some p ∧
        l' = { l with pipes := l.pipes.set i (p.push bs) } := by
  unfold write
  rw [Option.map_eq_some_iff]
  simp only [eq_comm]

theorem accept_eq_some {l l' : Listener β} :
    l.accept = some l' ↔
      l.accepted < l.pipes.length ∧
        l' = { l with accepted := l.accepted + 1 } := by
  unfold accept
  by_cases hlt : l.accepted < l.pipes.length <;> simp [hlt, eq_comm]

theorem read_eq_some {l l' : Listener β} {n : Nat} {bs : List β} :
    l.read n = some (bs, l') ↔
      ∃ i p, l.accepted = i + 1 ∧ l.pipes[i]? = some p ∧
        n ≤ p.buffered.length ∧ bs = p.buffered.take n ∧
        l' = { l with pipes := l.pipes.set i (p.pull n) } := by
  unfold read
  cases hi : l.accepted with
  | zero => simp
  | succ i =>
      cases hp : l.pipes[i]? with
      | none => simp [hp]
      | some p =>
          by_cases hn : n ≤ p.buffered.length <;>
            simp [hp, hn, eq_comm, and_comm]

/-- Reading leaves what was written. -/
theorem read_written {l l' : Listener β} {n : Nat} {bs : List β}
    (h : l.read n = some (bs, l')) :
    l'.pipes.map Pipe.written = l.pipes.map Pipe.written := by
  obtain ⟨i, p, -, hp, -, -, rfl⟩ := read_eq_some.mp h
  exact Table.map_set_same hp rfl

/-- Reading nothing changes nothing. -/
theorem read_nothing {l l' : Listener β} {bs : List β}
    (h : l.read 0 = some (bs, l')) : l' = l := by
  obtain ⟨i, p, -, hp, -, -, rfl⟩ := read_eq_some.mp h
  have hpull : p.pull 0 = p := by
    cases p
    simp [Pipe.pull]
  obtain ⟨hlt, hget⟩ := List.getElem?_eq_some_iff.mp hp
  rw [hpull, ← hget, List.set_getElem_self hlt]

/-! ## Totals -/

/-- The sum over all connections. -/
def total (l : Listener β) (f : Pipe β → Nat) : Nat := (l.pipes.map f).sum

def written (l : Listener β) : Nat := l.total fun p => p.written.length

def taken (l : Listener β) : Nat := l.total fun p => p.taken.length

def buffered (l : Listener β) : Nat := l.total fun p => p.buffered.length

/-- Replacing one element changes a sum by the difference of the two. -/
theorem sum_map_set {α : Type*} {xs : List α} {i : Nat} {x : α}
    (h : xs[i]? = some x) (f : α → Nat) (y : α) :
    ((xs.set i y).map f).sum + f x = (xs.map f).sum + f y := by
  induction xs generalizing i with
  | nil => simp at h
  | cons a xs ih =>
      cases i with
      | zero =>
          obtain rfl : a = x := by simpa using h
          simp only [List.set_cons_zero, List.map_cons, List.sum_cons]
          omega
      | succ i =>
          have htail := ih (i := i) (by simpa using h)
          simp only [List.set_cons_succ, List.map_cons, List.sum_cons]
          omega

/-- Everything that was written was taken or is buffered. -/
theorem written_eq (l : Listener β) : l.written = l.taken + l.buffered := by
  unfold written taken buffered total
  induction l.pipes with
  | nil => rfl
  | cons p ps ih =>
      simp only [List.map_cons, List.sum_cons, ih, p.length_eq]
      omega

theorem total_connect (l : Listener β) {f : Pipe β → Nat}
    (hf : f Pipe.empty = 0) : l.connect.total f = l.total f := by
  simp [total, connect, hf]

theorem total_accept {l l' : Listener β} (h : l.accept = some l')
    (f : Pipe β → Nat) : l'.total f = l.total f := by
  obtain ⟨-, rfl⟩ := accept_eq_some.mp h
  rfl

theorem written_write {l l' : Listener β} {i : Nat} {bs : List β}
    (h : l.write i bs = some l') :
    l'.written = l.written + bs.length ∧ l'.taken = l.taken := by
  obtain ⟨p, hp, rfl⟩ := write_eq_some.mp h
  have hwritten := sum_map_set hp (fun p => p.written.length) (p.push bs)
  have htaken := sum_map_set hp (fun p => p.taken.length) (p.push bs)
  simp only [Pipe.push, List.length_append] at hwritten htaken
  exact ⟨by unfold written total; simp only [Pipe.push]; omega,
    by unfold taken total; simp only [Pipe.push]; omega⟩

theorem taken_read {l l' : Listener β} {n : Nat} {bs : List β}
    (h : l.read n = some (bs, l')) :
    bs.length = n ∧ l'.taken = l.taken + n ∧ l'.written = l.written := by
  obtain ⟨i, p, -, hp, hn, rfl, rfl⟩ := read_eq_some.mp h
  have hlength : (p.buffered.take n).length = n := by
    rw [List.length_take]
    omega
  have hwritten := sum_map_set hp (fun p => p.written.length) (p.pull n)
  have htaken := sum_map_set hp (fun p => p.taken.length) (p.pull n)
  simp only [Pipe.pull, List.length_append, hlength] at hwritten htaken
  exact ⟨hlength, by unfold taken total; simp only [Pipe.pull]; omega,
    by unfold written total; simp only [Pipe.pull]; omega⟩

/-! ## The reader's log -/

/-- Nothing was taken from a connection before it was accepted. -/
def Fresh (l : Listener β) : Prop :=
  ∀ i p, l.accepted ≤ i → l.pipes[i]? = some p → p.taken = []

/-- Everything that was read, connection after connection. -/
def log (l : Listener β) : List β := l.pipes.flatMap Pipe.taken

theorem fresh_init : (init : Listener β).Fresh := by
  intro i p _ hp
  simp [init] at hp

theorem fresh_connect {l : Listener β} (h : l.Fresh) : l.connect.Fresh := by
  intro i p hi hp
  rcases Table.snoc_cases hp with hold | ⟨-, rfl⟩
  · exact h i p hi hold
  · rfl

theorem log_connect (l : Listener β) : l.connect.log = l.log := by
  simp [log, connect, Pipe.empty]

theorem fresh_accept {l l' : Listener β} (h : l.Fresh)
    (haccept : l.accept = some l') : l'.Fresh ∧ l'.log = l.log := by
  obtain ⟨-, rfl⟩ := accept_eq_some.mp haccept
  refine ⟨?_, rfl⟩
  intro i p hi hp
  exact h i p (Nat.le_of_succ_le hi) hp

/-- Replacing a pipe by one from which the same was taken. -/
theorem log_set {ps : List (Pipe β)} {i : Nat} {p q : Pipe β}
    (hp : ps[i]? = some p) (htaken : q.taken = p.taken) :
    (ps.set i q).flatMap Pipe.taken = ps.flatMap Pipe.taken := by
  rw [List.flatMap_def, List.flatMap_def, Table.map_set_same hp htaken]

theorem fresh_write {l l' : Listener β} {i : Nat} {bs : List β}
    (h : l.Fresh) (hwrite : l.write i bs = some l') :
    l'.Fresh ∧ l'.log = l.log := by
  obtain ⟨p, hp, rfl⟩ := write_eq_some.mp hwrite
  refine ⟨?_, log_set hp rfl⟩
  intro j q hj hq
  rcases Table.set_cases hq with ⟨rfl, rfl⟩ | ⟨-, hold⟩
  · -- writing takes nothing
    exact h j p hj hp
  · exact h j q hj hold

/-- If nothing was taken from the pipes behind one, what is taken from it
comes at the end. -/
theorem flatMap_taken_pull {ps : List (Pipe β)} {i : Nat} {p : Pipe β}
    (hp : ps[i]? = some p)
    (hrest : ∀ j q, i < j → ps[j]? = some q → q.taken = []) (n : Nat) :
    (ps.set i (p.pull n)).flatMap Pipe.taken =
      ps.flatMap Pipe.taken ++ p.buffered.take n := by
  induction ps generalizing i with
  | nil => simp at hp
  | cons a ps ih =>
      cases i with
      | zero =>
          obtain rfl : a = p := by simpa using hp
          have hnil : ps.flatMap Pipe.taken = [] := by
            apply List.flatMap_eq_nil_iff.mpr
            intro q hq
            obtain ⟨j, hj⟩ := List.mem_iff_getElem?.mp hq
            exact hrest (j + 1) q (Nat.succ_pos j) (by simpa using hj)
          simp [hnil, Pipe.pull]
      | succ i =>
          have htail := ih (i := i) (by simpa using hp) fun j q hj hq =>
            hrest (j + 1) q (by omega) (by simpa using hq)
          simp [htail]

/-- A read extends the log by what it returns. -/
theorem log_read {l l' : Listener β} {n : Nat} {bs : List β} (h : l.Fresh)
    (hread : l.read n = some (bs, l')) :
    l'.Fresh ∧ l'.log = l.log ++ bs := by
  obtain ⟨i, p, hi, hp, -, rfl, rfl⟩ := read_eq_some.mp hread
  constructor
  · intro j q hj hq
    rcases Table.set_cases hq with ⟨rfl, -⟩ | ⟨-, hold⟩
    · -- connection `j` has been accepted
      dsimp only at hj
      omega
    · exact h j q hj hold
  · exact flatMap_taken_pull hp
      (fun j q hj hq => h j q (by omega) hq) n

end Listener

/-! ## Records of one length -/

section Records

variable {α : Type*}

/-- A pipe of records as a pipe of their elements. -/
def Pipe.encode (enc : α → List β) (p : Pipe α) : Pipe β where
  written := p.written.flatMap enc
  taken := p.taken.flatMap enc
  buffered := p.buffered.flatMap enc
  intact := by rw [← List.flatMap_append, p.intact]

def Listener.encode (enc : α → List β) (l : Listener α) : Listener β where
  pipes := l.pipes.map (Pipe.encode enc)
  accepted := l.accepted

theorem Pipe.encode_push (enc : α → List β) (p : Pipe α) (a : α) :
    (p.push [a]).encode enc = (p.encode enc).push (enc a) := by
  simp [Pipe.encode, Pipe.push]

/-- If one record is there, pulling its elements is pulling it. -/
theorem Pipe.encode_pull (enc : α → List β) {p : Pipe α} {a : α}
    {rest : List α} (h : p.buffered = a :: rest) :
    (p.pull 1).encode enc = (p.encode enc).pull (enc a).length := by
  simp [Pipe.encode, Pipe.pull, h]

namespace Listener

variable {enc : α → List β} {k : Nat}

theorem encode_connect (l : Listener α) :
    l.connect.encode enc = (l.encode enc).connect := by
  simp [connect, encode, Pipe.empty, Pipe.encode]

theorem encode_write {l : Listener α} {q : Listener β} {i : Nat} {a : α}
    (h : (l.encode enc).write i (enc a) = some q) :
    ∃ l', l.write i [a] = some l' ∧ q = l'.encode enc := by
  obtain ⟨p, hp, rfl⟩ := write_eq_some.mp h
  obtain ⟨r, hr, rfl⟩ : ∃ r, l.pipes[i]? = some r ∧ r.encode enc = p := by
    simpa [encode] using hp
  refine ⟨_, write_eq_some.mpr ⟨r, hr, rfl⟩, ?_⟩
  simp [encode, List.map_set, Pipe.encode_push]

theorem encode_accept {l : Listener α} {q : Listener β}
    (h : (l.encode enc).accept = some q) :
    ∃ l', l.accept = some l' ∧ q = l'.encode enc := by
  obtain ⟨hlt, rfl⟩ := accept_eq_some.mp h
  refine ⟨_, accept_eq_some.mpr ⟨by simpa [encode] using hlt, rfl⟩, rfl⟩

/-- Reading as many elements as a record has reads a record. -/
theorem encode_read (hk : ∀ a, (enc a).length = k) (hpos : 0 < k)
    {l : Listener α} {q : Listener β} {bs : List β}
    (h : (l.encode enc).read k = some (bs, q)) :
    ∃ a l', l.read 1 = some ([a], l') ∧ bs = enc a ∧ q = l'.encode enc := by
  obtain ⟨i, p, hi, hp, hle, rfl, rfl⟩ := read_eq_some.mp h
  obtain ⟨r, hr, rfl⟩ : ∃ r, l.pipes[i]? = some r ∧ r.encode enc = p := by
    simpa [encode] using hp
  cases hbuffered : r.buffered with
  | nil =>
      simp [Pipe.encode, hbuffered] at hle
      omega
  | cons a rest =>
      have hread : l.read 1 = some ([a],
          { l with pipes := l.pipes.set i (r.pull 1) }) := by
        refine read_eq_some.mpr ⟨i, r, hi, hr, ?_, ?_, rfl⟩
        · simp [hbuffered]
        · simp [hbuffered]
      refine ⟨a, _, hread, ?_, ?_⟩
      · simp [Pipe.encode, hbuffered, ← hk a]
      · have hpull := Pipe.encode_pull enc hbuffered
        rw [hk a] at hpull
        simp [encode, List.map_set, hpull]

end Listener

end Records

end ZenohPicoPerf.Foundation
