import Funge.Random.Draw

namespace Funge

-- The ChaCha stream cipher with twelve rounds, used as a generator of words.
structure Lanes where
  a : UInt32
  b : UInt32
  c : UInt32
  d : UInt32
  deriving DecidableEq

namespace Lanes

instance : Add Lanes := ⟨fun p q => ⟨p.a + q.a,p.b + q.b,p.c + q.c,p.d + q.d⟩⟩
instance : XorOp Lanes := ⟨fun p q => ⟨p.a ^^^ q.a,p.b ^^^ q.b,p.c ^^^ q.c,p.d ^^^ q.d⟩⟩

def rotl (n : UInt32) (x : UInt32) : UInt32 := (x <<< n) ||| (x >>> (32 - n))

def spin (p : Lanes) (n : UInt32) : Lanes := ⟨rotl n p.a,rotl n p.b,rotl n p.c,rotl n p.d⟩

def shift (p : Lanes) : Lanes := ⟨p.b,p.c,p.d,p.a⟩

def toList (p : Lanes) : List UInt32 := [p.a,p.b,p.c,p.d]

end Lanes

structure Square where
  a : Lanes
  b : Lanes
  c : Lanes
  d : Lanes
  deriving DecidableEq

namespace Square

instance : Add Square := ⟨fun p q => ⟨p.a + q.a,p.b + q.b,p.c + q.c,p.d + q.d⟩⟩

def columns (s : Square) : Square :=
  let a := s.a + s.b
  let d := (s.d ^^^ a).spin 16
  let c := s.c + d
  let b := (s.b ^^^ c).spin 12
  let a := a + b
  let d := (d ^^^ a).spin 8
  let c := c + d
  let b := (b ^^^ c).spin 7
  ⟨a,b,c,d⟩

def diagonals (s : Square) : Square :=
  let s := columns ⟨s.a,s.b.shift,s.c.shift.shift,s.d.shift.shift.shift⟩
  ⟨s.a,s.b.shift.shift.shift,s.c.shift.shift,s.d.shift⟩

def rounds : Nat → Square → Square
  | 0, s => s
  | n + 1, s => rounds n s.columns.diagonals

def toList (s : Square) : List UInt32 := s.a.toList ++ s.b.toList ++ s.c.toList ++ s.d.toList

end Square

structure Key where
  low : Lanes
  high : Lanes
  deriving DecidableEq

namespace Key

def constants : Lanes := ⟨0x61707865,0x3320646e,0x79622d32,0x6b206574⟩

def block (k : Key) (counter : UInt64) : Square :=
  let initial := ⟨constants,k.low,k.high,⟨counter.toUInt32,(counter >>> 32).toUInt32,0,0⟩⟩
  initial.rounds 6 + initial

def stir (state : UInt64) : UInt64 := state * 6364136223846793005 + 11634580027462260723

def fold (state : UInt64) : UInt32 :=
  let x := (((state >>> 18) ^^^ state) >>> 27).toUInt32
  let n := (state >>> 59).toUInt32
  (x >>> n) ||| (x <<< ((32 - n) % 32))

def spread (state : UInt64) : Lanes × UInt64 :=
  let a := stir state
  let b := stir a
  let c := stir b
  let d := stir c
  (⟨fold a,fold b,fold c,fold d⟩,d)

def ofSeed (seed : UInt64) : Key :=
  let low := spread seed
  let high := spread low.2
  ⟨low.1,high.1⟩

end Key

-- Two neighbouring words of a block make one drawn word, the first the low half.
def paired : List UInt32 → List UInt64
  | low :: high :: rest => (low.toUInt64 ||| (high.toUInt64 <<< 32)) :: paired rest
  | _ => []

structure Keystream where
  key : Key
  counter : UInt64
  pending : List UInt64
  deriving DecidableEq

namespace Keystream

def ofKey (k : Key) : Keystream := ⟨k,0,[]⟩

def ofSeed (seed : UInt64) : Keystream := ofKey (.ofSeed seed)

def next (s : Keystream) : UInt64 × Keystream :=
  match s.pending with
  | word :: rest => (word,{ s with pending := rest })
  | [] =>
    let words := paired (s.key.block s.counter).toList
    (words.headD 0,{ s with counter := s.counter + 1, pending := words.tail })

-- The block counter comes round after 2^64 blocks of eight words.
def period : Nat := 8 * UInt64.size

instance : Words Keystream where
  next := next
  patience s := s.pending.length + period

open Words

theorem skip_pending (s : Keystream) : skip s.pending.length s = ⟨s.key,s.counter,[]⟩ := by
  obtain ⟨key,counter,pending⟩ := s
  induction pending with
  | nil => rfl
  | cons word rest ih => exact ih

theorem skip_block (key : Key) (counter : UInt64) :
    skip 8 (Keystream.mk key counter []) = ⟨key,counter + 1,[]⟩ := rfl

theorem skip_blocks (key : Key) (counter : UInt64) (n : Nat) :
    skip (8 * n) (Keystream.mk key counter []) = ⟨key,counter + .ofNat n,[]⟩ := by
  induction n generalizing counter with
  | zero => simp [skip]
  | succ n ih =>
    rw [Nat.mul_succ,Nat.add_comm,skip_add,skip_block,ih]
    simp [UInt64.ofNat_add,UInt64.add_assoc,UInt64.add_comm]

theorem skip_period (key : Key) (counter : UInt64) (n : Nat) :
    skip (period * n) (Keystream.mk key counter []) = ⟨key,counter,[]⟩ := by
  have round : UInt64.ofNat UInt64.size = 0 := rfl
  rw [period,Nat.mul_assoc,skip_blocks,UInt64.ofNat_mul,round]
  simp

theorem word_period (s : Keystream) (i n : Nat) :
    word (s.pending.length + (period * n + i)) s = word (s.pending.length + i) s := by
  rw [word_add,skip_pending,word_add,skip_period,word_add,skip_pending]

instance : WordSource Keystream where
  honest s n accepted := by
    by_cases early : n < s.pending.length
    · exact drawWithin_isSome (Nat.lt_add_right period early) accepted
    · obtain ⟨more,rfl⟩ := Nat.exists_eq_add_of_le (Nat.le_of_not_lt early)
      have again := word_period s (more % period) (more / period)
      have near : s.pending.length + more % period < s.pending.length + period :=
        Nat.add_lt_add_left (Nat.mod_lt more (by decide)) _
      rw [Nat.div_add_mod] at again
      apply drawWithin_isSome near
      unfold accepts
      rwa [← again]

end Keystream
end Funge
