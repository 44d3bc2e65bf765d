import Funge.Random.Keystream
import Funge.Random.Listed

namespace Funge
namespace WordSource
open Words
variable {W : Type} [WordSource W]

-- A source behind n draws. A draw that comes to nothing leaves it alone.
def drawn : Nat → W → W
  | 0, w => w
  | n + 1, w => ((draw? (drawn n w)).map Prod.snd).getD (drawn n w)

def heading? (n : Nat) (w : W) : Option Heading := (draw? (drawn n w)).map Prod.fst

theorem heading_drawn (n : Nat) (w : W) : heading? 0 (drawn n w) = heading? n w := rfl

theorem drawWithin_word {n : Nat} {w rest : W} {h : Heading} (found : drawWithin n w = some (h,rest)) :
    ∃ i, (∀ k < i, ¬ accepts w k) ∧ Heading.ofWord? (word i w) = some h ∧ rest = skip (i + 1) w := by
  induction n generalizing w with
  | zero => cases found
  | succ n ih =>
    cases head : Heading.ofWord? (next w).1 with
    | some g =>
      simp only [drawWithin,head,Option.some.injEq,Prod.mk.injEq] at found
      obtain ⟨rfl,rfl⟩ := found
      exact ⟨0,fun k below => absurd below (Nat.not_lt_zero k),head,rfl⟩
    | none =>
      simp only [drawWithin,head] at found
      obtain ⟨i,refused,accepted,rfl⟩ := ih found
      refine ⟨i + 1,?_,accepted,rfl⟩
      intro k early
      cases k with
      | zero => simp [accepts,word,skip,head]
      | succ k => exact refused k (Nat.lt_of_succ_lt_succ early)

theorem draw_none {w : W} : draw? w = none ↔ ∀ n, ¬ accepts w n := by
  constructor
  · intro nothing n accepted
    have found := honest w n accepted
    rw [show drawWithin (patience w) w = none from nothing] at found
    cases found
  · intro refused
    cases draw : draw? w with
    | none => rfl
    | some pair =>
      obtain ⟨i,_,accepted,_⟩ := drawWithin_word (h := pair.1) draw
      exact absurd (by simp [accepts,accepted]) (refused i)

def tally (n : Nat) (w : W) : Nat := (List.range n).countP (accepts w)

theorem tally_add (a b : Nat) (w : W) : tally (a + b) w = tally a w + tally b (skip a w) := by
  have later : accepts w ∘ (a + ·) = accepts (skip a w) := funext fun k => by simp [accepts,word_add]
  simp [tally,List.range_add,List.countP_append,List.countP_map,later]

theorem tally_refused {n : Nat} {w : W} (refused : ∀ k < n, ¬ accepts w k) : tally n w = 0 := by
  simpa [tally,List.countP_eq_zero] using refused

theorem draw_word {n : Nat} {w rest : W} {h : Heading} (found : draw? (skip n w) = some (h,rest)) :
    ∃ i, tally i w = tally n w ∧ Heading.ofWord? (word i w) = some h ∧ rest = skip (i + 1) w := by
  obtain ⟨k,refused,accepted,rfl⟩ := drawWithin_word found
  refine ⟨n + k,?_,?_,?_⟩
  · rw [tally_add,tally_refused refused,Nat.add_zero]
  · rwa [word_add]
  · exact (skip_add n (k + 1) w).symm

theorem drawn_some {n : Nat} {w rest : W} {h : Heading} (found : draw? (drawn n w) = some (h,rest)) :
    drawn (n + 1) w = rest := by simp [drawn,found]

theorem drawn_none {n : Nat} {w : W} (nothing : draw? (drawn n w) = none) : drawn (n + 1) w = drawn n w := by
  simp [drawn,nothing]

theorem tally_mono {a b : Nat} (w : W) (le : a ≤ b) : tally a w ≤ tally b w := by
  obtain ⟨more,rfl⟩ := Nat.exists_eq_add_of_le le
  rw [tally_add]
  exact Nat.le_add_right _ _

theorem tally_accepted {n : Nat} {w : W} (accepted : accepts w n) : tally (n + 1) w = tally n w + 1 := by
  simp [tally,List.range_succ,List.countP_append,accepted]

theorem heading_word {n : Nat} {w : W} {h : Heading} (found : heading? n w = some h) :
    ∃ i, tally i w = n ∧ Heading.ofWord? (word i w) = some h ∧ drawn (n + 1) w = skip (i + 1) w := by
  induction n generalizing h with
  | zero =>
    obtain ⟨⟨_,rest⟩,draw,rfl⟩ := Option.map_eq_some_iff.mp found
    obtain ⟨i,counted,word,rfl⟩ := draw_word (n := 0) draw
    exact ⟨i,counted,word,drawn_some draw⟩
  | succ n ih =>
    cases before : draw? (drawn n w) with
    | none =>
      rw [heading?,drawn_none before,before] at found
      cases found
    | some pair =>
      obtain ⟨i,counted,word,reached⟩ := ih (h := pair.1) (by simp [heading?,before])
      obtain ⟨⟨_,rest⟩,draw,rfl⟩ := Option.map_eq_some_iff.mp found
      have here := draw
      rw [reached] at here
      obtain ⟨j,same,next,rfl⟩ := draw_word here
      refine ⟨j,?_,next,drawn_some draw⟩
      rw [same,tally_accepted (by simp [accepts,word]),counted]

theorem drawn_add (a b : Nat) (w : W) : drawn (a + b) w = drawn b (drawn a w) := by
  induction b with
  | zero => rfl
  | succ b ih =>
    rw [← Nat.add_assoc,drawn,ih]
    rfl

-- A source is giving if no draw from it, however many went before, comes to nothing.
def Giving (w : W) : Prop := ∀ n, (draw? (drawn n w)).isSome

theorem Giving.drawn {w : W} (giving : Giving w) (n : Nat) : Giving (drawn n w) := by
  intro k
  rw [← drawn_add]
  exact giving (n + k)

theorem tally_inj {i j : Nat} {w : W} (one : accepts w i) (two : accepts w j) (same : tally i w = tally j w) :
    i = j := by
  have first := tally_accepted one
  have second := tally_accepted two
  rcases Nat.lt_trichotomy i j with less | equal | more
  · have grown : tally (i + 1) w ≤ tally j w := tally_mono w less
    omega
  · exact equal
  · have grown : tally (j + 1) w ≤ tally i w := tally_mono w more
    omega

theorem draw_ahead {w : W} {n i : Nat} (le : n ≤ i) (accepted : accepts w i) :
    ∃ h rest, draw? (skip n w) = some (h,rest) := by
  have ahead : accepts (skip n w) (i - n) := by rwa [accepts,← word_add,Nat.add_sub_cancel' le]
  obtain ⟨⟨h,rest⟩,found⟩ := Option.isSome_iff_exists.mp (honest _ _ ahead)
  exact ⟨h,rest,found⟩

theorem drawn_skip (n : Nat) (w : W) : ∃ k, drawn n w = skip k w := by
  induction n with
  | zero => exact ⟨0,rfl⟩
  | succ n ih =>
    obtain ⟨k,reached⟩ := ih
    cases draw : draw? (drawn n w) with
    | none => exact ⟨k,(drawn_none draw).trans reached⟩
    | some pair =>
      obtain ⟨i,_,_,rest⟩ := draw_word (n := k) (h := pair.1) (by rw [← reached,draw])
      exact ⟨i + 1,(drawn_some draw).trans rest⟩

theorem giving_unending {w : W} (unending : ∀ n, ∃ i, n ≤ i ∧ accepts w i) : Giving w := by
  intro n
  obtain ⟨k,reached⟩ := drawn_skip n w
  obtain ⟨i,le,accepted⟩ := unending k
  obtain ⟨h,rest,draw⟩ := draw_ahead le accepted
  simp [reached,draw]

theorem drawn_tally (w : W) (i : Nat) :
    ∃ n ≤ i, drawn (tally i w) w = skip n w ∧ tally n w = tally i w := by
  induction i with
  | zero => exact ⟨0,Nat.le_refl 0,rfl,rfl⟩
  | succ i ih =>
    obtain ⟨n,le,reached,same⟩ := ih
    by_cases accepted : accepts w i
    · obtain ⟨h,rest,draw⟩ := draw_ahead le accepted
      obtain ⟨j,counted,word,rfl⟩ := draw_word draw
      have here : j = i := tally_inj (by simp [accepts,word]) accepted (counted.trans same)
      cases here
      refine ⟨i + 1,Nat.le_refl _,?_,rfl⟩
      rw [tally_accepted accepted]
      exact drawn_some (by rw [reached,draw])
    · have unchanged : tally (i + 1) w = tally i w := by
        simp [tally,List.range_succ,List.countP_append,accepted]
      rw [unchanged]
      exact ⟨n,Nat.le_succ_of_le le,reached,same⟩

theorem heading_offered {w : W} {i : Nat} {h : Heading}
    (offered : Heading.ofWord? (word i w) = some h) : heading? (tally i w) w = some h := by
  have accepted : accepts w i := by simp [accepts,offered]
  obtain ⟨n,le,reached,_⟩ := drawn_tally w i
  obtain ⟨g,rest,draw⟩ := draw_ahead le accepted
  have found : heading? (tally i w) w = some g := by simp [heading?,reached,draw]
  obtain ⟨j,counted,word,_⟩ := heading_word found
  have here : j = i := tally_inj (by simp [accepts,word]) accepted counted
  rw [found,← word,here,offered]

end WordSource

theorem Keystream.giving {s : Keystream} {i : Nat} (accepted : Words.accepts s (s.pending.length + i)) :
    WordSource.Giving s := by
  apply WordSource.giving_unending
  intro n
  refine ⟨s.pending.length + (period * n + i),?_,?_⟩
  · have grows : n ≤ period * n := Nat.le_mul_of_pos_left n (by decide)
    omega
  · unfold Words.accepts
    rwa [word_period]

end Funge
