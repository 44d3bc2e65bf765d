import Mathlib.Data.List.Induction
import Funge.CommandLine.Options

namespace Funge.CommandLine

inductive Phrase where
  | setting (which : Setting) (numeral : String) (value : UInt64)
  | verbose (long : Bool)
  | file (path : String)
  deriving DecidableEq

inductive Form where
  | setting (which : Setting)
  | verbose (long : Bool)
  | file
  deriving DecidableEq

def foreign (argument : String) : Prop :=
  argument.toList.head? = some '-' ∧ argument ∉ ["--max-steps","--seed","-v","--verbose"]

namespace Phrase

def spelling : Phrase → List String
  | setting which numeral _ => [which.flag,numeral]
  | verbose long => [if long then "--verbose" else "-v"]
  | file path => [path]

def Sound : Phrase → Prop
  | setting _ numeral value => Writes numeral value
  | verbose _ => True
  | file path => path.toList.head? ≠ some '-'

def form : Phrase → Form
  | setting which _ _ => .setting which
  | verbose long => .verbose long
  | file _ => .file

def value? (which : Setting) : Phrase → Option UInt64
  | setting other _ value => if other = which then some value else none
  | verbose _ | file _ => none

def file? : Phrase → Option String
  | file path => some path
  | setting .. | verbose _ => none

def isVerbose : Phrase → Bool
  | verbose _ => true
  | setting .. | file _ => false

def item : Phrase → Item
  | setting which _ value => .setting which value
  | verbose _ => .verbose
  | file path => .file path

end Phrase

def spell (phrases : List Phrase) : List String := phrases.flatMap Phrase.spelling

def files (phrases : List Phrase) : List String := phrases.filterMap Phrase.file?

def values (which : Setting) (phrases : List Phrase) : List UInt64 := phrases.filterMap (Phrase.value? which)

-- What is wrong with arguments that begin with none of the phrases that may come next.
inductive Offence (given : List Phrase) : List String → UsageError → Prop where
  | unknown {argument : String} (rest : List String) (dash : foreign argument) :
      Offence given (argument :: rest) (.unknownOption argument)
  | second {path : String} (rest : List String) (plain : path.toList.head? ≠ some '-') (present : files given ≠ []) :
      Offence given (path :: rest) .secondFile
  | invalid (which : Setting) {text : String} (rest : List String) (bad : ¬ ∃ value, Writes text value) :
      Offence given (which.flag :: text :: rest) (.invalidValue which.flag text)
  | missing (which : Setting) : Offence given [which.flag] (.missingValue which.flag)

theorem plain_file {path : String} (plain : path.toList.head? ≠ some '-') :
    Setting.ofFlag? path = none ∧ Item.ofPlain path = .file path := by
  refine ⟨?_,?_⟩
  · cases found : Setting.ofFlag? path with
    | none => rfl
    | some which =>
      rw [flag_ofFlag found] at plain
      exact absurd (flag_dash which) plain
  · unfold Item.ofPlain
    rw [if_neg,if_neg plain]
    rintro (rfl | rfl)
    · exact plain (by decide)
    · exact plain (by decide)

theorem plain_foreign {argument : String} (dash : foreign argument) :
    Setting.ofFlag? argument = none ∧ Item.ofPlain argument = .faulty (.unknownOption argument) := by
  obtain ⟨dash,other⟩ := dash
  simp only [List.mem_cons,List.not_mem_nil,or_false,not_or] at other
  obtain ⟨limit,seed,short,long⟩ := other
  refine ⟨?_,?_⟩
  · exact (if_neg limit).trans (if_neg seed)
  · rw [Item.ofPlain,if_neg (not_or.mpr ⟨short,long⟩),if_pos dash]

theorem items_phrase {phrase : Phrase} (sound : phrase.Sound) (rest : List String) :
    items (phrase.spelling ++ rest) = phrase.item :: items rest := by
  cases phrase with
  | setting which numeral value =>
    show items (which.flag :: numeral :: rest) = _
    rw [items_flag,item_value sound]
    rfl
  | verbose long => cases long <;> rfl
  | file path =>
    show items (path :: rest) = _
    obtain ⟨noFlag,file⟩ := plain_file sound
    rw [items_plain noFlag,file]
    rfl

theorem items_spell {phrases : List Phrase} (sound : ∀ p ∈ phrases, p.Sound) (rest : List String) :
    items (spell phrases ++ rest) = phrases.map Phrase.item ++ items rest := by
  induction phrases with
  | nil => rfl
  | cons phrase phrases ih =>
    obtain ⟨first,others⟩ := List.forall_mem_cons.mp sound
    rw [spell,List.flatMap_cons,List.append_assoc,items_phrase first]
    exact congrArg (phrase.item :: ·) (ih others)

theorem files_concat (phrases : List Phrase) (phrase : Phrase) :
    files (phrases ++ [phrase]) = files phrases ++ phrase.file?.toList := by
  rw [files,List.filterMap_append]
  cases phrase <;> rfl

theorem values_concat (which : Setting) (phrases : List Phrase) (phrase : Phrase) :
    values which (phrases ++ [phrase]) = values which phrases ++ (phrase.value? which).toList := by
  rw [values,List.filterMap_append,List.filterMap_cons]
  cases phrase.value? which <;> rfl

def known (phrases : List Phrase) : Draft :=
  ⟨(files phrases).head?,(values .limit phrases).getLast?,(values .seed phrases).getLast?,
    phrases.any Phrase.isVerbose⟩

theorem known_concat {phrases : List Phrase} {phrase : Phrase} (room : (files (phrases ++ [phrase])).length ≤ 1) :
    (known phrases).take phrase.item = .ok (known (phrases ++ [phrase])) := by
  unfold known
  rw [files_concat] at room ⊢
  rw [values_concat,values_concat,List.any_append]
  cases phrase with
  | setting which numeral value =>
    cases which with
    | limit | seed => simp [Phrase.file?,Phrase.value?,Phrase.isVerbose,Phrase.item,Draft.take]
  | verbose long => simp [Phrase.file?,Phrase.value?,Phrase.isVerbose,Phrase.item,Draft.take]
  | file path =>
    have none : files phrases = [] := List.length_eq_zero_iff.mp (by simpa [Phrase.file?] using room)
    simp [none,Phrase.file?,Phrase.value?,Phrase.isVerbose,Phrase.item,Draft.take]

theorem known_second {phrases : List Phrase} (present : files phrases ≠ []) (path : String) :
    (known phrases).take (.file path) = .error .secondFile := by
  have given : (known phrases).path.isSome := List.isSome_head?.mpr present
  exact if_pos given

theorem foldlM_phrases (phrases : List Phrase) : (phrases.map Phrase.item).foldlM Draft.take .blank =
    if (files phrases).length ≤ 1 then .ok (known phrases) else .error .secondFile := by
  induction phrases using List.reverseRecOn with
  | nil => rfl
  | append_singleton phrases phrase ih =>
    rw [List.map_append,List.foldlM_append,ih,List.map_singleton]
    have longer := files_concat phrases phrase
    by_cases room : (files (phrases ++ [phrase])).length ≤ 1
    · have earlier : (files phrases).length ≤ 1 := by
        rw [longer,List.length_append] at room
        omega
      rw [if_pos room,if_pos earlier]
      show (known phrases).take phrase.item >>= pure = _
      rw [known_concat room]
      rfl
    · rw [if_neg room]
      by_cases earlier : (files phrases).length ≤ 1
      · rw [if_pos earlier]
        show (known phrases).take phrase.item >>= pure = _
        cases phrase with
        | setting | verbose => exact absurd (by rwa [longer,Phrase.file?,Option.toList_none,List.append_nil]) room
        | file path =>
          have present : files phrases ≠ [] := by
            intro none
            exact room (by rw [longer,none]; exact Nat.le_refl 1)
          rw [Phrase.item,known_second present]
          rfl
      · rw [if_neg earlier]
        rfl

section Parse
variable {phrases : List Phrase}

theorem parse_after (sound : ∀ p ∈ phrases, p.Sound) (room : (files phrases).length ≤ 1) (rest : List String) :
    Options.parse (spell phrases ++ rest) = (items rest).foldlM Draft.take (known phrases) >>= Draft.finish := by
  rw [Options.parse,items_spell sound,List.foldlM_append,foldlM_phrases,if_pos room]
  rfl

theorem parse_spell (sound : ∀ p ∈ phrases, p.Sound) (room : (files phrases).length ≤ 1) :
    Options.parse (spell phrases) = (known phrases).finish := by
  have alone := parse_after sound room []
  rw [List.append_nil] at alone
  exact alone

theorem parse_crowded (sound : ∀ p ∈ phrases, p.Sound) (crowded : ¬ (files phrases).length ≤ 1) (rest : List String) :
    Options.parse (spell phrases ++ rest) = .error .secondFile := by
  rw [Options.parse,items_spell sound,List.foldlM_append,foldlM_phrases,if_neg crowded]
  rfl

theorem parse_offence {rest : List String} {e : UsageError} (sound : ∀ p ∈ phrases, p.Sound)
    (room : (files phrases).length ≤ 1) (offence : Offence phrases rest e) :
    Options.parse (spell phrases ++ rest) = .error e := by
  rw [parse_after sound room]
  cases offence with
  | unknown rest dash =>
    obtain ⟨noFlag,faulty⟩ := plain_foreign dash
    rw [items_plain noFlag,faulty]
    rfl
  | @second path rest plain present =>
    obtain ⟨noFlag,file⟩ := plain_file plain
    rw [items_plain noFlag,file,List.foldlM_cons,known_second present]
    rfl
  | invalid which rest bad =>
    rw [items_flag,item_invalid bad]
    rfl
  | missing which =>
    rw [items_lone]
    rfl

theorem Offence.append {rest more : List String} {e : UsageError} (offence : Offence phrases rest e)
    (present : ∀ flag, e ≠ .missingValue flag) : Offence phrases (rest ++ more) e := by
  cases offence with
  | unknown rest dash => exact .unknown (rest ++ more) dash
  | second rest plain given => exact .second (rest ++ more) plain given
  | invalid which rest bad => exact .invalid which (rest ++ more) bad
  | missing which => exact absurd rfl (present which.flag)

inductive Complaint : List String → String → Prop where
  | unknown {argument : String} (rest : List String) (dash : foreign argument) :
      Complaint (argument :: rest) ("Unknown option '" ++ argument ++ "'")
  | second {path : String} (rest : List String) (plain : path.toList.head? ≠ some '-') :
      Complaint (path :: rest) "More than one program file given"
  | invalid {flag text : String} (rest : List String) (takes : flag ∈ ["--max-steps","--seed"])
      (bad : ¬ ∃ value, Writes text value) :
      Complaint (flag :: text :: rest) ("Invalid value for " ++ flag ++ ": '" ++ text ++ "'")
  | missing {flag : String} (takes : flag ∈ ["--max-steps","--seed"]) : Complaint [flag] ("Missing value for " ++ flag)

theorem Offence.complaint {rest : List String} {e : UsageError} (offence : Offence phrases rest e) :
    Complaint rest e.message := by
  have takes (which : Setting) : which.flag ∈ ["--max-steps","--seed"] := by cases which <;> decide
  cases offence with
  | unknown rest dash => exact .unknown rest dash
  | second rest plain given => exact .second rest plain
  | invalid which rest bad => exact .invalid rest (takes which) bad
  | missing which => exact .missing (takes which)

theorem spell_concat (phrases : List Phrase) (phrase : Phrase) (rest : List String) :
    spell (phrases ++ [phrase]) ++ rest = spell phrases ++ (phrase.spelling ++ rest) := by
  simp [spell]

structure Reading (arguments : List String) (phrases : List Phrase) (rest : List String) : Prop where
  sound : ∀ p ∈ phrases, p.Sound
  room : (files phrases).length ≤ 1
  whole : arguments = spell phrases ++ rest
  ends : rest = [] ∨ ∃ e, Offence phrases rest e

theorem sound_concat (phrase : Phrase) (sound : ∀ p ∈ phrases, p.Sound) (also : phrase.Sound) :
    ∀ p ∈ phrases ++ [phrase], p.Sound := by
  simpa [or_imp,forall_and] using ⟨sound,also⟩

theorem room_concat {phrase : Phrase} (room : (files phrases).length ≤ 1) (other : phrase.file? = none) :
    (files (phrases ++ [phrase])).length ≤ 1 := by
  rwa [files_concat,other,Option.toList_none,List.append_nil]

theorem Offence.reading {arguments : List String} {e : UsageError} (offence : Offence phrases arguments e)
    (sound : ∀ p ∈ phrases, p.Sound) (room : (files phrases).length ≤ 1) :
    ∃ more rest, Reading (spell phrases ++ arguments) more rest :=
  ⟨phrases,arguments,sound,room,rfl,.inr ⟨e,offence⟩⟩

theorem reading_from (sound : ∀ p ∈ phrases, p.Sound) (room : (files phrases).length ≤ 1) (arguments : List String) :
    ∃ more rest, Reading (spell phrases ++ arguments) more rest := by
  fun_induction items arguments generalizing phrases with
  | case1 => exact ⟨phrases,[],sound,room,rfl,.inl rfl⟩
  | case2 argument which text rest flag ih =>
    cases flag_ofFlag flag
    by_cases writes : ∃ value, Writes text value
    · obtain ⟨value,writes⟩ := writes
      have read := ih (sound_concat (.setting which text value) sound writes) (room_concat room rfl)
      rwa [spell_concat] at read
    · exact Offence.reading (.invalid which rest writes) sound room
  | case3 argument which flag =>
    cases flag_ofFlag flag
    exact Offence.reading (.missing which) sound room
  | case4 argument rest noFlag ih =>
    by_cases dash : argument.toList.head? = some '-'
    · by_cases verbose : argument = "-v" ∨ argument = "--verbose"
      · have read (long : Bool) := ih (sound_concat (.verbose long) sound trivial) (room_concat room rfl)
        simp only [spell_concat] at read
        rcases verbose with rfl | rfl
        · exact read false
        · exact read true
      · have unlisted : argument ∉ ["--max-steps","--seed","-v","--verbose"] := by
          simp only [List.mem_cons,List.not_mem_nil,or_false]
          rintro (rfl | rfl | short | long)
          · cases noFlag
          · cases noFlag
          · exact verbose (.inl short)
          · exact verbose (.inr long)
        exact Offence.reading (.unknown rest ⟨dash,unlisted⟩) sound room
    · by_cases given : files phrases = []
      · have first : (files (phrases ++ [.file argument])).length ≤ 1 := by
          rw [files_concat,given]
          exact Nat.le_refl 1
        have read := ih (sound_concat (.file argument) sound dash) first
        rwa [spell_concat] at read
      · exact Offence.reading (.second rest dash given) sound room

theorem reading (arguments : List String) : ∃ phrases rest, Reading arguments phrases rest :=
  reading_from (List.forall_mem_nil Phrase.Sound) (Nat.zero_le 1) arguments

end Parse

-- One phrase is never the beginning of another.
theorem spelling_inj {p q : Phrase} {rest others : List String} (sound : p.Sound) (also : q.Sound)
    (same : p.spelling ++ rest = q.spelling ++ others) : p = q ∧ rest = others := by
  have item : p.item = q.item := by
    have read := congrArg items same
    rw [items_phrase sound,items_phrase also] at read
    exact List.head_eq_of_cons_eq read
  cases p with
  | setting which numeral value =>
    cases q with
    | setting =>
      cases item
      injection same with _ following
      injection following with numeral rest
      cases numeral
      exact ⟨rfl,rest⟩
    | verbose | file => cases item
  | verbose long =>
    cases q with
    | verbose other =>
      injection same with written rest
      have length : long = other := by
        revert written
        cases long <;> cases other <;> decide
      cases length
      exact ⟨rfl,rest⟩
    | setting | file => cases item
  | file path =>
    cases q with
    | file =>
      cases item
      injection same with _ rest
      exact ⟨rfl,rest⟩
    | setting | verbose => cases item

theorem spelling_some (phrase : Phrase) : phrase.spelling ≠ [] := by cases phrase <;> exact List.cons_ne_nil _ _

theorem spell_inj {phrases others : List Phrase} (sound : ∀ p ∈ phrases, p.Sound) (also : ∀ p ∈ others, p.Sound)
    (same : spell phrases = spell others) : phrases = others := by
  induction phrases generalizing others with
  | nil =>
    cases others with
    | nil => rfl
    | cons q others => exact absurd (List.append_eq_nil_iff.mp same.symm).1 (spelling_some q)
  | cons p phrases ih =>
    cases others with
    | nil => exact absurd (List.append_eq_nil_iff.mp same).1 (spelling_some p)
    | cons q others =>
      obtain ⟨first,later⟩ := List.forall_mem_cons.mp sound
      obtain ⟨first',later'⟩ := List.forall_mem_cons.mp also
      obtain ⟨rfl,rest⟩ := spelling_inj first first' same
      rw [ih later later' rest]

theorem filterMap_form {α : Type} {f : Phrase → Option α} {form : Form}
    (only : ∀ p, p.form ≠ form → f p = none) (phrases : List Phrase) :
    (phrases.filter (·.form = form)).filterMap f = phrases.filterMap f := by
  rw [List.filterMap_filter]
  refine congrArg (List.filterMap · phrases) (funext fun p => ?_)
  by_cases formed : p.form = form
  · simp [formed]
  · simp [formed,only p formed]

theorem any_verbose (phrases : List Phrase) :
    phrases.any Phrase.isVerbose = true ↔ ∃ long, .verbose long ∈ phrases := by
  rw [List.any_eq_true]
  constructor
  · rintro ⟨p,listed,verbose⟩
    cases p with
    | verbose long => exact ⟨long,listed⟩
    | setting | file => cases verbose
  · rintro ⟨long,listed⟩
    exact ⟨.verbose long,listed,rfl⟩

theorem known_sorted {phrases others : List Phrase}
    (same : ∀ form, phrases.filter (·.form = form) = others.filter (·.form = form)) :
    files phrases = files others ∧ known phrases = known others := by
  have file : files phrases = files others := by
    have only : ∀ p : Phrase, p.form ≠ .file → p.file? = none := by
      intro p other
      cases p with
      | file => exact absurd rfl other
      | setting | verbose => rfl
    rw [files,files,← filterMap_form only phrases,same,filterMap_form only]
  have value (which : Setting) : values which phrases = values which others := by
    have only : ∀ p : Phrase, p.form ≠ .setting which → p.value? which = none := by
      intro p other
      cases p with
      | setting => exact if_neg fun same => other (congrArg Form.setting same)
      | verbose | file => rfl
    rw [values,values,← filterMap_form only phrases,same,filterMap_form only]
  have listed (long : Bool) (l : List Phrase) :
      .verbose long ∈ l ↔ .verbose long ∈ l.filter (·.form = .verbose long) := by
    simp [List.mem_filter,Phrase.form]
  have verbose : phrases.any Phrase.isVerbose = others.any Phrase.isVerbose := by
    rw [Bool.eq_iff_iff,any_verbose,any_verbose]
    refine exists_congr fun long => ?_
    rw [listed,same,← listed]
  exact ⟨file,by rw [known,known,file,value,value,verbose]⟩

theorem parse_sorted {phrases others : List Phrase} (sound : ∀ p ∈ phrases, p.Sound) (also : ∀ p ∈ others, p.Sound)
    (same : ∀ form, phrases.filter (·.form = form) = others.filter (·.form = form)) :
    Options.parse (spell phrases) = Options.parse (spell others) := by
  obtain ⟨file,known⟩ := known_sorted same
  rw [← List.append_nil (spell phrases),← List.append_nil (spell others)]
  by_cases room : (files phrases).length ≤ 1
  · rw [parse_after sound room,parse_after also (by rwa [← file]),known]
  · rw [parse_crowded sound room,parse_crowded also (by rwa [← file])]

theorem head_append {front : String} {c : Char} (first : front.toList.head? = some c) (back : String) :
    (front ++ back).toList.head? = some c := by
  rw [String.toList_append,List.head?_append,first]
  rfl

theorem message_noFile {e : UsageError} (said : e.message = "No input file provided") : e = .noFile := by
  have letter : e.message.toList.head? = some 'N' := by
    rw [said]
    decide
  cases e with
  | unknownOption argument =>
    have other : (UsageError.unknownOption argument).message.toList.head? = some 'U' :=
      head_append (head_append (by decide) argument) "'"
    rw [other] at letter
    cases letter
  | secondFile => cases letter
  | missingValue flag =>
    have other : (UsageError.missingValue flag).message.toList.head? = some 'M' := head_append (by decide) flag
    rw [other] at letter
    cases letter
  | invalidValue flag value =>
    have other : (UsageError.invalidValue flag value).message.toList.head? = some 'I' :=
      head_append (head_append (head_append (head_append (by decide) flag) ": '") value) "'"
    rw [other] at letter
    cases letter
  | noFile => rfl

structure Asks (phrases : List Phrase) (o : Options) : Prop where
  path : files phrases = [o.path]
  limit : o.limit = (values .limit phrases).getLast?
  seed : o.seed = (values .seed phrases).getLast?
  verbose : o.verbose ↔ ∃ long, .verbose long ∈ phrases

theorem finish_known {phrases : List Phrase} {path : String} (one : files phrases = [path]) (o : Options) :
    (known phrases).finish = .ok o ↔ Asks phrases o := by
  have finished : (known phrases).finish =
      .ok ⟨path,(known phrases).limit,(known phrases).seed,(known phrases).verbose⟩ := by
    have given : (known phrases).path = some path := by rw [known,one]; rfl
    rw [Draft.finish,given]
  rw [finished]
  constructor
  · intro same
    cases same
    exact ⟨one,rfl,rfl,any_verbose phrases⟩
  · rintro ⟨path',limit,seed,verbose⟩
    cases o with
    | mk path'' limit' seed' verbose' =>
      cases one.symm.trans path'
      cases limit
      cases seed
      have loud : verbose' = phrases.any Phrase.isVerbose := by
        rw [Bool.eq_iff_iff,any_verbose]
        exact verbose
      rw [loud]
      rfl

theorem finish_noFile {phrases : List Phrase} (none : files phrases = []) :
    (known phrases).finish = .error .noFile := by
  have missing : (known phrases).path = Option.none := by rw [known,none]; rfl
  rw [Draft.finish,missing]

-- The first arguments that begin no further phrase are at fault, or else the want of a file.
def Fault (arguments : List String) (e : UsageError) : Prop :=
  ∃ phrases rest, (∀ p ∈ phrases, p.Sound) ∧ (files phrases).length ≤ 1 ∧ arguments = spell phrases ++ rest ∧
    (Offence phrases rest e ∨ rest = [] ∧ files phrases = [] ∧ e = .noFile)

theorem parse_fault {arguments : List String} {e : UsageError} (fault : Fault arguments e) :
    Options.parse arguments = .error e := by
  obtain ⟨phrases,rest,sound,room,rfl,offence | ⟨rfl,none,rfl⟩⟩ := fault
  · exact parse_offence sound room offence
  · rw [List.append_nil,parse_spell sound room,finish_noFile none]

theorem asks_or_fault (arguments : List String) :
    (∃ phrases o, (∀ p ∈ phrases, p.Sound) ∧ spell phrases = arguments ∧ Asks phrases o) ∨ ∃ e, Fault arguments e := by
  obtain ⟨phrases,rest,sound,room,whole,rfl | ⟨e,offence⟩⟩ := reading arguments
  · rw [List.append_nil] at whole
    cases given : files phrases with
    | nil =>
      exact .inr ⟨.noFile,phrases,[],sound,room,by rw [whole,List.append_nil],.inr ⟨rfl,given,rfl⟩⟩
    | cons path others =>
      have one : files phrases = [path] := by
        rw [given,List.length_cons] at room
        rw [given,List.length_eq_zero_iff.mp (by omega : others.length = 0)]
      let o : Options := ⟨path,(known phrases).limit,(known phrases).seed,(known phrases).verbose⟩
      exact .inl ⟨phrases,o,sound,whole.symm,one,rfl,rfl,any_verbose phrases⟩
  · exact .inr ⟨e,phrases,rest,sound,room,whole,.inl offence⟩

theorem parse_asks {phrases : List Phrase} {o : Options} (sound : ∀ p ∈ phrases, p.Sound) (asks : Asks phrases o) :
    Options.parse (spell phrases) = .ok o := by
  rw [parse_spell sound (by rw [asks.path]; exact Nat.le_refl 1)]
  exact (finish_known asks.path o).mpr asks

theorem parse_ok {arguments : List String} {o : Options} : Options.parse arguments = .ok o ↔
    ∃ phrases, (∀ p ∈ phrases, p.Sound) ∧ spell phrases = arguments ∧ Asks phrases o := by
  constructor
  · intro parsed
    rcases asks_or_fault arguments with ⟨phrases,o',sound,rfl,asks⟩ | ⟨e,fault⟩
    · rw [parse_asks sound asks] at parsed
      cases parsed
      exact ⟨phrases,sound,rfl,asks⟩
    · rw [parse_fault fault] at parsed
      cases parsed
  · rintro ⟨phrases,sound,rfl,asks⟩
    exact parse_asks sound asks

theorem parse_error {arguments : List String} {e : UsageError} :
    Options.parse arguments = .error e ↔ Fault arguments e := by
  constructor
  · intro parsed
    rcases asks_or_fault arguments with ⟨phrases,o,sound,rfl,asks⟩ | ⟨e',fault⟩
    · rw [parse_asks sound asks] at parsed
      cases parsed
    · rw [parse_fault fault] at parsed
      cases parsed
      exact fault
  · exact parse_fault

theorem Fault.append {arguments : List String} {e : UsageError} (fault : Fault arguments e) (given : e ≠ .noFile)
    (present : ∀ flag, e ≠ .missingValue flag) (more : List String) : Fault (arguments ++ more) e := by
  obtain ⟨phrases,rest,sound,room,rfl,offence | ⟨_,_,missing⟩⟩ := fault
  · exact ⟨phrases,rest ++ more,sound,room,List.append_assoc ..,.inl (offence.append present)⟩
  · exact absurd missing given

-- A command line is a row of phrases with one file among them, and there is one way only to
-- read it as such. All others are refused for the first thing that is no further phrase, which
-- no argument behind it can mend unless a value is missing, or for want of a file.
theorem parse_grammar :
    (∀ arguments o, Options.parse arguments = .ok o ↔
      ∃ phrases, (∀ p ∈ phrases, p.Sound) ∧ spell phrases = arguments ∧ Asks phrases o) ∧
    (∀ phrases others, (∀ p ∈ phrases, p.Sound) → (∀ p ∈ others, p.Sound) →
      (spell phrases = spell others → phrases = others) ∧
      ((∀ form, phrases.filter (·.form = form) = others.filter (·.form = form)) →
        Options.parse (spell phrases) = Options.parse (spell others))) ∧
    (∀ arguments e, Options.parse arguments = .error e ↔ Fault arguments e) ∧
    (∀ given rest e, Offence given rest e → Complaint rest e.message) ∧
    (∀ arguments e, Options.parse arguments = .error e → e ≠ .noFile → (∀ flag, e ≠ .missingValue flag) →
      ∀ more, Options.parse (arguments ++ more) = .error e) ∧
    ∀ arguments e, Options.parse arguments = .error e → (e.message = "No input file provided" ↔
      ∃ phrases, (∀ p ∈ phrases, p.Sound) ∧ spell phrases = arguments ∧ files phrases = []) := by
  refine ⟨fun _ _ => parse_ok,?_,fun _ _ => parse_error,fun _ _ _ offence => offence.complaint,?_,?_⟩
  · intro phrases others sound also
    exact ⟨spell_inj sound also,parse_sorted sound also⟩
  · intro arguments e refused given present more
    exact parse_fault ((parse_error.mp refused).append given present more)
  · intro arguments e refused
    constructor
    · intro said
      cases message_noFile said
      obtain ⟨phrases,rest,sound,_,rfl,offence | ⟨rfl,none,_⟩⟩ := parse_error.mp refused
      · cases offence
      · exact ⟨phrases,sound,(List.append_nil _).symm,none⟩
    · rintro ⟨phrases,sound,rfl,none⟩
      have room : (files phrases).length ≤ 1 := by simp [none]
      have wanting : Fault (spell phrases) .noFile :=
        ⟨phrases,[],sound,room,(List.append_nil _).symm,.inr ⟨rfl,none,rfl⟩⟩
      rw [parse_fault wanting] at refused
      cases refused
      rfl

theorem parse_grammar_swallowed :
    let given : List Phrase := [.setting .seed "+7" 7,.verbose false,.file "a",.setting .seed "08" 8]
    let sorted : List Phrase := [.file "a",.setting .seed "+7" 7,.setting .seed "08" 8,.verbose false]
    Options.parse ["--seed","+7","-v","a","--seed","08"] = .ok ⟨"a",none,some 8,true⟩ ∧
      (∀ phrases, (∀ p ∈ phrases, p.Sound) → spell phrases = spell given → phrases = given) ∧
      Options.parse (spell given) = Options.parse (spell sorted) ∧
      Options.parse (["a","--max-steps","-v"] ++ ["9","b"]) = .error (.invalidValue "--max-steps" "-v") ∧
      ∃ phrases, (∀ p ∈ phrases, p.Sound) ∧ spell phrases = ["-v"] ∧ files phrases = [] := by
  intro given sorted
  obtain ⟨accepted,phrased,refused,_,lasting,wanting⟩ := parse_grammar
  have seven : Writes "+7" 7 := numeral_exact.mp (by decide)
  have eight : Writes "08" 8 := numeral_exact.mp (by decide)
  have sound : ∀ p ∈ given, p.Sound := by
    simp [given,Phrase.Sound,seven,eight]
  have also : ∀ p ∈ sorted, p.Sound := by
    simp [sorted,Phrase.Sound,seven,eight]
  have asks : Asks given ⟨"a",none,some 8,true⟩ := ⟨rfl,rfl,rfl,by simp [given]⟩
  have invalid : Fault ["a","--max-steps","-v"] (.invalidValue "--max-steps" "-v") := by
    refine ⟨[.file "a"],["--max-steps","-v"],by simp [Phrase.Sound],by decide,rfl,.inl (.invalid .limit [] ?_)⟩
    rintro ⟨value,writes⟩
    cases numeral_exact.mpr writes
  refine ⟨?_,?_,?_,?_,?_⟩
  · exact (accepted _ _).mpr ⟨given,sound,rfl,asks⟩
  · exact fun phrases plain same => (phrased phrases given plain sound).1 same
  · apply (phrased given sorted sound also).2
    intro form
    rcases form with (_ | _) | (_ | _) | _ <;> rfl
  · exact lasting _ _ ((refused _ _).mpr invalid) nofun nofun ["9","b"]
  · exact (wanting ["-v"] .noFile rfl).mp rfl

end Funge.CommandLine
