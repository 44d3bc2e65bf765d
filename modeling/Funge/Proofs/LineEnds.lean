import Mathlib.Data.List.DropRight
import Funge.Machine
import Funge.Random.Listed

namespace Funge

namespace Text
variable {text init last : List Char} {c : Char}

def LineEnd (mark : List Char) : Prop := mark = ['\n'] ∨ mark = ['\r','\n']

def stripped (text : List Char) : List (List Char) :=
  (pieces text).dropLast.map chop ++ (pieces text).getLast?.toList

theorem rows_stripped (text : List Char) : rows text = (stripped text).rdropWhile List.isEmpty := by
  show (dropFinalEmpty (stripped text)).rdropWhile List.isEmpty = _
  unfold dropFinalEmpty
  split
  · rename_i final
    conv_rhs => rw [← List.dropLast_append_getLast? [] final,List.rdropWhile_concat_pos _ _ _ rfl]
  · rfl

theorem pieces_append (before after : List Char) : pieces (before ++ '\n' :: after) = pieces before ++ pieces after :=
  List.splitOn_append_cons_self before after

theorem pieces_concat (text : List Char) (other : c ≠ '\n') :
    ∃ init last, pieces text = init ++ [last] ∧ pieces (text ++ [c]) = init ++ [last ++ [c]] := by
  induction text with
  | nil => exact ⟨[],[],rfl,List.splitOn_eq_singleton (by simpa using other.symm)⟩
  | cons d rest ih =>
    obtain ⟨init,last,alone,longer⟩ := ih
    unfold pieces at alone longer ⊢
    rw [List.cons_append,List.splitOn_cons_eq_if_modifyHead,List.splitOn_cons_eq_if_modifyHead,alone,longer]
    split
    · exact ⟨[] :: init,last,rfl,rfl⟩
    · cases init with
      | nil => exact ⟨[],d :: last,rfl,rfl⟩
      | cons first init => exact ⟨(d :: first) :: init,last,rfl,rfl⟩

theorem stripped_append (before after : List Char) :
    stripped (before ++ '\n' :: after) = (pieces before).map chop ++ stripped after := by
  have some : pieces after ≠ [] := List.splitOn_ne_nil '\n' after
  unfold stripped
  rw [pieces_append,List.dropLast_append_of_ne_nil some,List.getLast?_append_of_ne_nil _ some,List.map_append,
    List.append_assoc]

theorem chop_plain {line : List Char} (plain : '\r' ∉ line) : chop line = line := by
  unfold chop
  rw [if_neg]
  exact fun final => plain (List.mem_of_getLast? final)

theorem chop_concat (line : List Char) : chop (line ++ ['\r']) = line := by simp [chop]

theorem map_chop {lines : List (List Char)} (plain : ∀ line ∈ lines, '\r' ∉ line) : lines.map chop = lines := by
  rw [List.map_congr_left fun line listed => chop_plain (plain line listed),List.map_id']

section Plain
variable (plain : '\r' ∉ text)
include plain

theorem pieces_plain {line : List Char} (listed : line ∈ pieces text) : '\r' ∉ line := by
  intro member
  apply plain
  rw [← intercalate_pieces text]
  exact mem_intercalate listed member

theorem map_chop_pieces : (pieces text).map chop = pieces text := map_chop fun _ listed => pieces_plain plain listed

theorem stripped_plain : stripped text = pieces text := by
  unfold stripped
  rw [map_chop fun line listed => pieces_plain plain ((List.dropLast_sublist _).mem listed)]
  have some : pieces text ≠ [] := List.splitOn_ne_nil '\n' text
  rw [List.getLast?_eq_some_getLast some]
  exact List.dropLast_concat_getLast some

theorem stripped_ended {mark : List Char} (ended : LineEnd mark) (after : List Char) :
    stripped (text ++ mark ++ after) = pieces text ++ stripped after := by
  rcases ended with rfl | rfl
  · rw [List.append_assoc,List.singleton_append,stripped_append,map_chop_pieces plain]
  · obtain ⟨init,last,alone,longer⟩ := pieces_concat text (c := '\r') (by decide)
    have rest : '\r' ∉ last ∧ ∀ line ∈ init, '\r' ∉ line := by
      refine ⟨pieces_plain plain (by simp [alone]),fun line listed => pieces_plain plain (by simp [alone,listed])⟩
    have split : text ++ ['\r','\n'] ++ after = (text ++ ['\r']) ++ '\n' :: after := by simp
    rw [split,stripped_append,longer,alone,List.map_append,map_chop rest.2,List.map_singleton,chop_concat]

end Plain

theorem stripped_marks {marks : List (List Char)} (ended : ∀ mark ∈ marks, LineEnd mark) :
    ∀ line ∈ stripped marks.flatten, line = [] := by
  induction marks with
  | nil => simp [stripped,pieces]
  | cons mark rest ih =>
    have first := stripped_ended List.not_mem_nil (ended mark List.mem_cons_self) rest.flatten
    rw [List.flatten_cons,← List.nil_append mark,first]
    intro line listed
    rcases List.mem_append.mp listed with blank | later
    · simpa [pieces] using blank
    · exact ih (fun mark listed => ended mark (List.mem_cons_of_mem _ listed)) line later

theorem drop_blank (lines : List (List Char)) {blank : List (List Char)} (empty : ∀ line ∈ blank, line = []) :
    (lines ++ blank).rdropWhile List.isEmpty = lines.rdropWhile List.isEmpty := by
  unfold List.rdropWhile
  rw [List.reverse_append,List.dropWhile_append_of_pos]
  intro line listed
  rw [empty line (List.mem_reverse.mp listed)]
  rfl

section Rows
variable (plain : '\r' ∉ text)
include plain

theorem rows_plain : rows text = (text.splitOn '\n').rdropWhile List.isEmpty := by
  rw [rows_stripped,stripped_plain plain]
  rfl

theorem rows_followed {marks : List (List Char)} (ended : ∀ mark ∈ marks, LineEnd mark) :
    rows (text ++ marks.flatten) = rows text := by
  cases marks with
  | nil => rw [List.flatten_nil,List.append_nil]
  | cons mark rest =>
    have first := stripped_ended plain (ended mark List.mem_cons_self) rest.flatten
    have blank := stripped_marks fun mark listed => ended mark (List.mem_cons_of_mem _ listed)
    rw [List.flatten_cons,← List.append_assoc,rows_stripped,first,drop_blank _ blank,rows_plain plain]
    rfl

theorem rows_bare : rows (text.rdropWhile (· = '\n')) = rows text := by
  have bare : '\r' ∉ text.rdropWhile (· = '\n') := fun member => plain ((List.rdropWhile_prefix _ _).mem member)
  have marks : (text.rtakeWhile (· = '\n')) = ((text.rtakeWhile (· = '\n')).map fun c => [c]).flatten :=
    (List.flatMap_singleton' _).symm
  have ended : ∀ mark ∈ (text.rtakeWhile (· = '\n')).map fun c => [c], LineEnd mark := by
    intro mark listed
    obtain ⟨c,taken,rfl⟩ := List.mem_map.mp listed
    have newline := List.mem_rtakeWhile_imp taken
    exact .inl (by simpa using newline)
  have whole := rows_followed bare ended
  rw [← marks,List.rdropWhile_append_rtakeWhile] at whole
  exact whole.symm

end Rows

def returned (text : List Char) : List Char := text.flatMap fun c => if c = '\n' then ['\r','\n'] else [c]

theorem returned_cons (c : Char) (rest : List Char) :
    returned (c :: rest) = (if c = '\n' then ['\r','\n'] else [c]) ++ returned rest := List.flatMap_cons

theorem stripped_returned {before : List Char} (plain : '\r' ∉ before ++ text) :
    stripped (before ++ returned text) = stripped (before ++ text) := by
  -- The line that the text begins with may have begun before it.
  induction text generalizing before with
  | nil => rfl
  | cons c rest ih =>
    rw [returned_cons,← List.append_assoc]
    by_cases newline : c = '\n'
    · subst newline
      have earlier : '\r' ∉ before := fun member => plain (List.mem_append_left _ member)
      have later : '\r' ∉ [] ++ rest := fun member => plain (by simp_all)
      have split : before ++ '\n' :: rest = before ++ ['\n'] ++ rest := by simp
      rw [if_pos rfl,stripped_ended earlier (.inr rfl),split,stripped_ended earlier (.inl rfl)]
      exact congrArg _ (ih later)
    · have split : before ++ c :: rest = before ++ [c] ++ rest := by simp
      rw [split] at plain ⊢
      rw [if_neg newline,ih plain]

theorem rows_returned (plain : '\r' ∉ text) : rows (returned text) = rows text := by
  rw [rows_stripped,rows_stripped]
  exact congrArg _ (stripped_returned (show '\r' ∉ [] ++ text from plain))

theorem intercalate_bare (text : List Char) :
    ['\n'].intercalate ((pieces text).rdropWhile List.isEmpty) = text.rdropWhile (· = '\n') := by
  induction text using List.reverseRecOn with
  | nil => rfl
  | append_singleton text c ih =>
    by_cases newline : c = '\n'
    · subst newline
      rw [pieces_append,List.rdropWhile_concat_pos _ _ _ (by simp),← ih]
      exact congrArg _ (List.rdropWhile_concat_pos _ _ _ rfl)
    · obtain ⟨init,last,_,longer⟩ := pieces_concat text newline
      rw [longer,List.rdropWhile_concat_neg _ _ _ (by simp),List.rdropWhile_concat_neg _ _ _ (by simpa using newline),
        ← longer,intercalate_pieces]

theorem kept_above {lines : List (List Char)} {i j : Nat} {line lower : List Char} (here : lines[i]? = some line)
    (below : i ≤ j) (there : lines[j]? = some lower) (ink : lower ≠ []) :
    (lines.rdropWhile List.isEmpty)[i]? = some line := by
  let kept := lines.rdropWhile List.isEmpty
  have whole : kept ++ lines.rtakeWhile List.isEmpty = lines := List.rdropWhile_append_rtakeWhile
  have among : i < kept.length := by
    by_contra beyond
    rw [← whole,List.getElem?_append_right (by omega)] at there
    have blank := List.mem_rtakeWhile_imp (List.mem_of_getElem? there)
    exact ink (List.isEmpty_iff.mp blank)
  rwa [← whole,List.getElem?_append_left among] at here

end Text

namespace Machine
variable {W : Type} [WordSource W]

-- How lines end does not matter to what is loaded, nor do empty lines at the end; all else of
-- a text is kept and can be read off the playfield again.
theorem load_lines (m : Standard W) (program : String) (plain : '\r' ∉ program.toList) :
    let f := (m.load program).store.playfield
    (f.rowList = (program.toList.splitOn '\n').rdropWhile List.isEmpty ∧ f.remote = ∅) ∧
    f.text = .ofList (program.toList.rdropWhile (· = '\n')) ∧
    (m.load f.text).store.playfield = f ∧
    (∀ marks : List String, (∀ mark ∈ marks, mark = "\n" ∨ mark = "\r\n") →
      (m.load (program ++ .join marks)).store.playfield = f) ∧
    (m.load (.ofList (program.toList.flatMap fun c => if c = '\n' then ['\r','\n'] else [c]))).store.playfield = f ∧
    ∀ (i : Nat) row, (program.toList.splitOn '\n')[i]? = some row →
      (∃ j ≥ i, ∃ lower, lower ≠ [] ∧ (program.toList.splitOn '\n')[j]? = some lower) → f.rowList[i]? = some row := by
  intro f
  have loaded (p : String) : (m.load p).store.playfield = .ofRows (Text.rows p.toList) := rfl
  have again {p : String} (same : Text.rows p.toList = Text.rows program.toList) : (m.load p).store.playfield = f := by
    rw [loaded,same]
    rfl
  have rows : f.rowList = (program.toList.splitOn '\n').rdropWhile List.isEmpty := by
    rw [← Text.rows_plain plain]
    exact Playfield.rowList_ofRows _
  have text : f.text = .ofList (program.toList.rdropWhile (· = '\n')) := by
    rw [Playfield.text,rows]
    exact congrArg _ (Text.intercalate_bare _)
  refine ⟨⟨rows,rfl⟩,text,?_,?_,?_,?_⟩
  · apply again
    rw [text,String.toList_ofList,Text.rows_bare plain]
  · intro marks ended
    apply again
    rw [String.toList_append,String.toList_join]
    apply Text.rows_followed plain
    intro mark listed
    obtain ⟨written,given,rfl⟩ := List.mem_map.mp listed
    rcases ended written given with rfl | rfl
    · exact .inl rfl
    · exact .inr rfl
  · apply again
    rw [String.toList_ofList]
    exact Text.rows_returned plain
  · rintro i row here ⟨j,below,lower,ink,there⟩
    rw [rows]
    exact Text.kept_above here below there ink

theorem load_lines_mixed :
    let m := Standard.fresh (Listed.mk [])
    let f := (m.load "\na\n\n  \n\n").store.playfield
    f.rowList = [[],['a'],[],[' ',' ']] ∧ f.text = "\na\n\n  " ∧
      (m.load ("\na\n\n  \n\n" ++ .join ["\r\n","\n"])).store.playfield = f ∧ f.rowList[2]? = some [] := by
  intro m f
  obtain ⟨⟨rows,_⟩,text,_,followed,_,kept⟩ := load_lines m "\na\n\n  \n\n" (by decide)
  exact ⟨rows.trans (by decide),text.trans (by decide),followed ["\r\n","\n"] (by decide),
    kept 2 [] (by decide) ⟨3,by decide,[' ',' '],by decide,by decide⟩⟩

end Machine
end Funge
