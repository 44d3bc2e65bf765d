import Funge.Proofs.PlayfieldHistory

namespace Funge.Playfield

def latest (writes : List (Position × Char)) (p : Position) : Option Char := writes.reverse.lookup p

-- As many rows, and as many columns in a row, as the near writes ask for.
def depths (writes : List (Position × Char)) : List Nat :=
  (writes.filter fun w => Near w.1).map fun w => w.1.y.toNatClampNeg + 1

def lengths (writes : List (Position × Char)) (i : Nat) : List Nat :=
  (writes.filter fun w => Near w.1 ∧ w.1.y.toNatClampNeg = i).map fun w => w.1.x.toNatClampNeg + 1

structure Indistinct (f g : Playfield) : Prop where
  height : f.height = g.height
  width : ∀ y, f.width y = g.width y
  text : f.text = g.text
  get : ∀ p, f.get p = g.get p

theorem foldl_max_le {numbers : List Nat} {base bound : Nat} :
    numbers.foldl max base ≤ bound ↔ base ≤ bound ∧ ∀ n ∈ numbers, n ≤ bound := by
  induction numbers generalizing base with
  | nil => simp
  | cons n rest ih => rw [List.foldl_cons,ih,Nat.max_le,List.forall_mem_cons,and_assoc]

theorem foldl_max_congr {numbers others : List Nat} (same : ∀ n, n ∈ numbers ↔ n ∈ others) (base : Nat) :
    numbers.foldl max base = others.foldl max base := by
  have bounds : ∀ bound, numbers.foldl max base ≤ bound ↔ others.foldl max base ≤ bound := by
    intro bound
    rw [foldl_max_le,foldl_max_le]
    simp only [same]
  exact Nat.le_antisymm ((bounds _).mpr (Nat.le_refl _)) ((bounds _).mp (Nat.le_refl _))

section Latest
variable {writes writes' : List (Position × Char)} {p : Position}

theorem latest_append (earlier later : List (Position × Char)) (p : Position) :
    latest (earlier ++ later) p = (latest later p).or (latest earlier p) := by
  unfold latest
  rw [List.reverse_append,List.lookup_append]

theorem latest_single (q p : Position) (c : Char) : latest [(q,c)] p = if p = q then some c else none := by
  rw [latest,List.reverse_singleton]
  by_cases same : p = q
  · rw [if_pos same,same,List.lookup_cons_self]
  · rw [if_neg same,List.lookup_cons,beq_false_of_ne same]
    rfl

theorem latest_cons (q : Position) (c : Char) (later : List (Position × Char)) (p : Position) :
    latest ((q,c) :: later) p = (latest later p).or (if p = q then some c else none) := by
  rw [← latest_single,← latest_append,List.singleton_append]

theorem latest_isSome : (latest writes p).isSome ↔ ∃ c, (p,c) ∈ writes := by
  unfold latest
  rw [List.lookup_isSome_iff]
  constructor
  · rintro ⟨⟨q,c⟩,listed,same⟩
    cases eq_of_beq same
    exact ⟨c,List.mem_reverse.mp listed⟩
  · rintro ⟨c,listed⟩
    exact ⟨(p,c),List.mem_reverse.mpr listed,beq_self_eq_true p⟩

theorem depths_cons (w : Position × Char) (later : List (Position × Char)) :
    depths (w :: later) = if Near w.1 then (w.1.y.toNatClampNeg + 1) :: depths later else depths later := by
  simp only [depths,List.filter_cons,decide_eq_true_eq]
  split <;> rfl

theorem lengths_cons (w : Position × Char) (later : List (Position × Char)) (i : Nat) :
    lengths (w :: later) i =
      if Near w.1 ∧ w.1.y.toNatClampNeg = i then (w.1.x.toNatClampNeg + 1) :: lengths later i else lengths later i := by
  simp only [lengths,List.filter_cons,decide_eq_true_eq]
  split <;> rfl

theorem mem_depths {n : Nat} :
    n ∈ depths writes ↔ ∃ p, (latest writes p).isSome ∧ Near p ∧ p.y.toNatClampNeg + 1 = n := by
  simp only [depths,List.mem_map,List.mem_filter,decide_eq_true_eq,latest_isSome,Prod.exists]
  grind

theorem mem_lengths {i n : Nat} : n ∈ lengths writes i ↔
    ∃ p, (latest writes p).isSome ∧ (Near p ∧ p.y.toNatClampNeg = i) ∧ p.x.toNatClampNeg + 1 = n := by
  simp only [lengths,List.mem_map,List.mem_filter,decide_eq_true_eq,latest_isSome,Prod.exists]
  grind

theorem latest_mem (apart : (writes.map Prod.fst).Nodup) {c : Char} :
    latest writes p = some c ↔ (p,c) ∈ writes := by
  induction writes with
  | nil => simp [latest]
  | cons w rest ih =>
    obtain ⟨q,d⟩ := w
    obtain ⟨fresh,apart⟩ := List.nodup_cons.mp apart
    rw [latest_cons]
    by_cases same : p = q
    · subst same
      have once : ∀ e, (p,e) ∉ rest := fun e listed => fresh (List.mem_map.mpr ⟨(p,e),listed,rfl⟩)
      have absent : latest rest p = none := by
        rw [← Option.not_isSome_iff_eq_none,latest_isSome]
        exact fun ⟨e,listed⟩ => once e listed
      simp [absent,once,eq_comm]
    · rw [if_neg same,Option.or_none,ih apart]
      simp [same]

theorem latest_perm (perm : writes.Perm writes') (apart : (writes.map Prod.fst).Nodup) (p : Position) :
    latest writes' p = latest writes p := by
  have apart' : (writes'.map Prod.fst).Nodup := (perm.map Prod.fst).nodup_iff.mp apart
  apply Option.ext
  intro c
  rw [latest_mem apart,latest_mem apart',perm.mem_iff]

end Latest

section Writes
variable {f g : Playfield} {writes writes' : List (Position × Char)}

theorem setAll_cons (f : Playfield) (p : Position) (c : Char) (rest : List (Position × Char)) :
    f.setAll ((p,c) :: rest) = (f.set p c).setAll rest := rfl

theorem get_setAll (f : Playfield) (writes : List (Position × Char)) (p : Position) :
    (f.setAll writes).get p = (latest writes p).getD (f.get p) := by
  induction writes generalizing f with
  | nil => rfl
  | cons w rest ih =>
    rw [setAll_cons,ih,get_set,latest_cons]
    cases latest rest p with
    | some c => rfl
    | none => split <;> rfl

theorem height_setAll (f : Playfield) (writes : List (Position × Char)) :
    (f.setAll writes).height = (depths writes).foldl max f.height := by
  induction writes generalizing f with
  | nil => rfl
  | cons w rest ih =>
    rw [setAll_cons,ih,height_set]
    by_cases near : Near w.1
    · rw [if_pos near,depths_cons,if_pos near,List.foldl_cons]
    · rw [if_neg near,depths_cons,if_neg near]

theorem size_setAll (f : Playfield) (writes : List (Position × Char)) (i : Nat) :
    ((f.setAll writes).line i).size = (lengths writes i).foldl max (f.line i).size := by
  induction writes generalizing f with
  | nil => rfl
  | cons w rest ih =>
    rw [setAll_cons,ih,line_set]
    by_cases written : Near w.1 ∧ w.1.y.toNatClampNeg = i
    · rw [if_pos ⟨written.1,written.2.symm⟩,size_setRow,lengths_cons,if_pos written,List.foldl_cons]
    · rw [if_neg fun h => written ⟨h.1,h.2.symm⟩,lengths_cons,if_neg written]

theorem width_line (f : Playfield) (y : Int64) :
    f.width y = if 0 ≤ y then (f.line y.toNatClampNeg).size else 0 := by
  unfold width row
  split <;> rfl

def shown (f : Playfield) (x i : Nat) : Char := ((f.line i)[x]?).getD ' '

theorem shown_near (f : Playfield) {x i : Nat} (column : x < 65536) (row : i < 65536) :
    f.shown x i = f.get ⟨.ofNat x,.ofNat i⟩ := by
  have index {n : Nat} (small : n < 65536) : (Int64.ofNat n).toNatClampNeg = n ∧ 0 ≤ Int64.ofNat n := by
    have value : (Int64.ofNat n).toInt = n := Int64.toInt_ofNat_of_lt (by omega)
    rw [← Int64.toNat_toInt,Int64.le_iff_toInt_le,value]
    exact ⟨Int.toNat_natCast n,Int.natCast_nonneg n⟩
  have close {n : Nat} (small : n < 65536) : Int64.ofNat n < reach := by
    rw [below_reach,(index small).1]
    exact small
  have near : Near ⟨.ofNat x,.ofNat i⟩ := ⟨⟨(index column).2,close column⟩,(index row).2,close row⟩
  rw [get,if_pos near,Playfield.row,if_pos near.2.1,(index column).1,(index row).1]
  rfl

theorem shown_far (f : Playfield) (writes : List (Position × Char)) {x i : Nat}
    (far : ¬ (x < 65536 ∧ i < 65536)) : (f.setAll writes).shown x i = f.shown x i := by
  induction writes generalizing f with
  | nil => rfl
  | cons w rest ih =>
    rw [setAll_cons,ih]
    unfold shown
    rw [line_set]
    split
    · rename_i written
      rw [getD_setRow,if_neg]
      rintro rfl
      exact far ⟨below_reach.mp written.1.1.2,by rw [written.2]; exact below_reach.mp written.1.2.2⟩
    · rfl

theorem line_ext {i : Nat} (size : (f.line i).size = (g.line i).size)
    (same : ∀ x, f.shown x i = g.shown x i) : f.line i = g.line i := by
  apply Array.ext size
  intro x inside inside'
  have equal := same x
  rwa [shown,shown,Array.getElem?_eq_getElem inside,Array.getElem?_eq_getElem inside'] at equal

theorem rows_ext (height : f.height = g.height) (line : ∀ i, f.line i = g.line i) : f.rows = g.rows := by
  apply Array.ext height
  intro i inside inside'
  have equal := line i
  rwa [Playfield.line,Playfield.line,Array.getElem?_eq_getElem inside,Array.getElem?_eq_getElem inside'] at equal

theorem Indistinct.of_rows (rows : f.rows = g.rows) (get : ∀ p, f.get p = g.get p) : f.Indistinct g := by
  have row (y : Int64) : f.row y = g.row y := by rw [row,row,rows]
  have list : f.rowList = g.rowList := by rw [rowList,rowList,rows]
  refine ⟨congrArg Array.size rows,fun y => congrArg Array.size (row y),?_,get⟩
  rw [Playfield.text,Playfield.text,list]

theorem setAll_latest (f : Playfield) (same : ∀ p, latest writes p = latest writes' p) :
    (f.setAll writes).Indistinct (f.setAll writes') := by
  have get : ∀ p, (f.setAll writes).get p = (f.setAll writes').get p := by
    intro p
    rw [get_setAll,get_setAll,same]
  have height : (f.setAll writes).height = (f.setAll writes').height := by
    rw [height_setAll,height_setAll]
    apply foldl_max_congr
    simp only [mem_depths,same,implies_true]
  have line : ∀ i, (f.setAll writes).line i = (f.setAll writes').line i := by
    intro i
    apply line_ext
    · rw [size_setAll,size_setAll]
      apply foldl_max_congr
      simp only [mem_lengths,same,implies_true]
    · intro x
      by_cases near : x < 65536 ∧ i < 65536
      · rw [shown_near _ near.1 near.2,shown_near _ near.1 near.2,get]
      · rw [shown_far f writes near,shown_far f writes' near]
  exact .of_rows (rows_ext height line) get

end Writes

-- The last write at a position stands, and rows and columns reach as far as the farthest write
-- in the near quadrant; neither the order of writes at different positions nor a write that
-- another covers leaves a trace.
theorem writes_settled (rows : List (List Char)) (writes : List (Position × Char)) :
    let f := (ofRows rows).setAll writes
    (∀ p, f.get p = (latest writes p).getD (if Near p then (charAt? rows p).getD ' ' else ' ')) ∧
    f.height = (depths writes).foldl max rows.length ∧
    (∀ y, f.width y =
      if 0 ≤ y then (lengths writes y.toNatClampNeg).foldl max ((rows[y.toNatClampNeg]?).getD []).length else 0) ∧
    (∀ p c, ¬ Near p → (f.set p c).height = f.height ∧ ∀ y, (f.set p c).width y = f.width y) ∧
    (∀ writes', (∀ p, latest writes p = latest writes' p) → f.Indistinct ((ofRows rows).setAll writes')) ∧
    (∀ before block block' after, writes = before ++ block ++ after → block.Perm block' →
      (block.map Prod.fst).Nodup → f.Indistinct ((ofRows rows).setAll (before ++ block' ++ after))) ∧
    ∀ before p c between d after, writes = before ++ (p,c) :: between ++ (p,d) :: after →
      f.Indistinct ((ofRows rows).setAll (before ++ between ++ (p,d) :: after)) := by
  intro f
  refine ⟨?_,?_,?_,?_,?_,?_,?_⟩
  · intro p
    rw [get_setAll,get_ofRows]
  · rw [height_setAll,height_ofRows]
  · intro y
    have loaded (i : Nat) : ((ofRows rows).line i).size = ((rows[i]?).getD []).length := by
      simp only [line,ofRows,List.getElem?_toArray,List.getElem?_map]
      cases rows[i]? <;> rfl
    rw [width_line,size_setAll,loaded]
  · intro p c far
    refine ⟨?_,?_⟩
    · rw [height_set,if_neg far]
    · intro y
      rw [width_set,if_neg fun written => far written.1]
  · intro writes' same
    exact setAll_latest _ same
  · rintro before block block' after rfl perm apart
    apply setAll_latest
    intro p
    simp only [latest_append,latest_perm perm apart]
  · rintro before p c between d after rfl
    apply setAll_latest
    intro q
    simp only [latest_append,latest_cons]
    by_cases covered : q = p
    · simp [covered]
    · simp [covered]

theorem writes_settled_covered :
    let rows := ["ab".toList]
    let f := (ofRows rows).setAll [(⟨4,0⟩,'x'),(⟨-1,0⟩,'y'),(⟨1,2⟩,'z'),(⟨4,0⟩,'w')]
    f.Indistinct ((ofRows rows).setAll [(⟨1,2⟩,'z'),(⟨-1,0⟩,'y'),(⟨4,0⟩,'w')]) ∧
      f.Indistinct ((ofRows rows).setAll [(⟨4,0⟩,'x'),(⟨1,2⟩,'z'),(⟨-1,0⟩,'y'),(⟨4,0⟩,'w')]) ∧
      f.Indistinct ((ofRows rows).setAll [(⟨-1,0⟩,'y'),(⟨1,2⟩,'z'),(⟨4,0⟩,'w')]) ∧
      (f.set ⟨65536,0⟩ 'q').height = 3 ∧ f.text = "ab  w\n\n z" := by
  intro rows f
  obtain ⟨_,height,_,apart,same,reordered,dropped⟩ :=
    writes_settled rows [(⟨4,0⟩,'x'),(⟨-1,0⟩,'y'),(⟨1,2⟩,'z'),(⟨4,0⟩,'w')]
  refine ⟨?_,?_,?_,?_,?_⟩
  · apply same
    intro p
    simp only [latest_cons]
    grind
  · exact reordered [(⟨4,0⟩,'x')] [(⟨-1,0⟩,'y'),(⟨1,2⟩,'z')] [(⟨1,2⟩,'z'),(⟨-1,0⟩,'y')] [(⟨4,0⟩,'w')] rfl
      (.swap ..) (by decide)
  · exact dropped [] ⟨4,0⟩ 'x' [(⟨-1,0⟩,'y'),(⟨1,2⟩,'z')] 'w' [] rfl
  · exact ((apart ⟨65536,0⟩ 'q' (by decide)).1.trans height).trans (by decide)
  · decide +kernel

end Funge.Playfield
