import Mathlib.Algebra.GroupWithZero.Nat
import Funge.Printout
import Funge.Proofs.LineEnds

namespace Funge

namespace Text
variable {text : List Char} {c : Char}

def Ended (text : List Char) : Prop := text.getLast? = some '\n'

instance (text : List Char) : Decidable (Ended text) := inferInstanceAs (Decidable (_ = _))

theorem ended_concat (text : List Char) (c : Char) : Ended (text ++ [c]) ↔ c = '\n' := by simp [Ended]

theorem pieces_ended (text : List Char) : pieces (text ++ ['\n']) = pieces text ++ [[]] := pieces_append text []

theorem pieces_bare {piece : List Char} (listed : piece ∈ pieces text) : '\n' ∉ piece := by
  induction text using List.reverseRecOn generalizing piece with
  | nil => simp [List.mem_singleton.mp listed]
  | append_singleton text c ih =>
    by_cases newline : c = '\n'
    · subst newline
      rw [pieces_ended] at listed
      rcases List.mem_append.mp listed with earlier | last
      · exact ih earlier
      · simp [List.mem_singleton.mp last]
    · obtain ⟨init,last,alone,longer⟩ := pieces_concat text newline
      rw [alone] at ih
      rw [longer] at listed
      rcases List.mem_append.mp listed with earlier | final
      · exact ih (List.mem_append_left _ earlier)
      · have before := ih (List.mem_append_right init (List.mem_singleton_self last))
        simp [List.mem_singleton.mp final,before,Ne.symm newline]

theorem length_pieces (text : List Char) : (pieces text).length = text.count '\n' + 1 := by
  induction text using List.reverseRecOn with
  | nil => rfl
  | append_singleton text c ih =>
    by_cases newline : c = '\n'
    · subst newline
      simp [pieces_ended,ih]
    · obtain ⟨init,last,alone,longer⟩ := pieces_concat text newline
      rw [alone] at ih
      simpa [longer,newline] using ih

theorem splitLines_ended (text : List Char) : splitLines (text ++ ['\n']) = pieces text := by
  simp [splitLines,pieces_ended,dropFinalEmpty]

theorem splitLines_open (text : List Char) (other : c ≠ '\n') : splitLines (text ++ [c]) = pieces (text ++ [c]) := by
  obtain ⟨init,last,_,longer⟩ := pieces_concat text other
  simp [splitLines,longer,dropFinalEmpty]

theorem intercalate_lines (text : List Char) :
    ['\n'].intercalate (splitLines text) ++ (if Ended text then ['\n'] else []) = text := by
  rcases text.eq_nil_or_concat' with rfl | ⟨before,c,rfl⟩
  · rfl
  · by_cases newline : c = '\n'
    · subst newline
      rw [splitLines_ended,intercalate_pieces,if_pos ((ended_concat before _).mpr rfl)]
    · rw [splitLines_open before newline,intercalate_pieces,if_neg (mt (ended_concat before c).mp newline),
        List.append_nil]

theorem length_lines (text : List Char) :
    (splitLines text).length = text.count '\n' + if text = [] ∨ Ended text then 0 else 1 := by
  rcases text.eq_nil_or_concat' with rfl | ⟨before,c,rfl⟩
  · rfl
  · by_cases newline : c = '\n'
    · subst newline
      simp [splitLines_ended,length_pieces,ended_concat]
    · simp [splitLines_open before newline,length_pieces,ended_concat,newline]

theorem splitLines_again (ended : Ended text) : splitLines (text ++ ['\n']) = splitLines text ++ [[]] := by
  have last : text.dropLast ++ ['\n'] = text := List.dropLast_append_getLast? _ ended
  rw [splitLines_ended,← last,splitLines_ended,pieces_ended]

end Text

namespace Printout

def printAll (o : Printout) (prints : List String) : Printout := prints.foldl print o

theorem text_printAll (o : Printout) (prints : List String) : (o.printAll prints).text = o.text ++ .join prints := by
  induction prints generalizing o with
  | nil => simp [printAll]
  | cons piece rest ih =>
    rw [printAll,List.foldl_cons,← printAll,ih,String.join_cons,← String.append_assoc]
    rfl

theorem size_printAll (o : Printout) (prints : List String) :
    (o.printAll prints).size = o.size + (prints.map String.utf8ByteSize).sum := by
  induction prints generalizing o with
  | nil => rfl
  | cons piece rest ih =>
    rw [printAll,List.foldl_cons,← printAll,ih,size_print,List.map_cons,List.sum_cons,Nat.add_assoc]

theorem intercalate_lines (o : Printout) :
    "\n".intercalate o.lines ++ (if Text.Ended o.text.toList then "\n" else "") = o.text := by
  have mark : (if Text.Ended o.text.toList then "\n" else "").toList =
      if Text.Ended o.text.toList then ['\n'] else [] := by split <;> rfl
  rw [← String.toList_inj,String.toList_append,String.toList_intercalate,mark]
  simpa [lines,Function.comp_def] using Text.intercalate_lines o.text.toList

-- A printout is its text, in whatever pieces that was printed. There is a line for each
-- newline, and one for what stands behind the last newline if anything does.
theorem lines_exact (prints : List String) :
    ((empty.printAll prints).text = .join prints ∧
      (empty.printAll prints).size = (prints.map String.utf8ByteSize).sum ∧
      ∀ others, String.join others = .join prints →
        (empty.printAll others).lines = (empty.printAll prints).lines) ∧
    ∀ text : String,
      let lines := (Printout.mk text).lines
      let ended := Text.Ended text.toList
      (∀ line ∈ lines, '\n' ∉ line.toList) ∧
      "\n".intercalate lines ++ (if ended then "\n" else "") = text ∧
      lines.length = text.toList.count '\n' + (if text = "" ∨ ended then 0 else 1) ∧
      ((Printout.mk "").lines = [] ∧ (Printout.mk "\n").lines = [""] ∧
        (ended → (Printout.mk (text ++ "\n")).lines = lines ++ [""])) := by
  have printed (pieces : List String) : (empty.printAll pieces).text = .join pieces := by
    rw [text_printAll]
    exact String.empty_append
  refine ⟨⟨printed prints,?_,?_⟩,?_⟩
  · exact (size_printAll empty prints).trans (Nat.zero_add _)
  · intro others same
    rw [lines,printed,same,lines,printed]
  · intro text lines ended
    refine ⟨?_,intercalate_lines ⟨text⟩,?_,rfl,by decide,?_⟩
    · intro line listed
      obtain ⟨cells,shown,rfl⟩ := List.mem_map.mp listed
      rw [String.toList_ofList]
      exact Text.pieces_bare (Text.mem_of_mem_dropFinalEmpty shown)
    · have counted := Text.length_lines text.toList
      simp only [String.toList_eq_nil_iff] at counted
      exact (List.length_map _).trans counted
    · intro final
      show (Text.splitLines (text ++ "\n").toList).map String.ofList = _
      rw [String.toList_append]
      exact (congrArg _ (Text.splitLines_again final)).trans List.map_append

theorem lines_exact_blank :
    let lines := (Printout.mk "a\n\n").lines
    (empty.printAll ["a","\n\n"]).lines = (empty.printAll ["a\n","\n"]).lines ∧
      (∃ line ∈ lines, line = "a" ∧ '\n' ∉ line.toList) ∧
      (Printout.mk ("a\n\n" ++ "\n")).lines = lines ++ [""] ∧ lines = ["a",""] := by
  intro lines
  obtain ⟨⟨_,_,cut⟩,exact⟩ := lines_exact ["a\n","\n"]
  obtain ⟨bare,_,_,_,_,further⟩ := exact "a\n\n"
  exact ⟨cut ["a","\n\n"] (by decide),⟨"a",by decide,rfl,bare "a" (by decide)⟩,further (by decide),by decide⟩

end Printout
end Funge
