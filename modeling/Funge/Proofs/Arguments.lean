import Funge.CommandLine.Options

namespace Funge.CommandLine

-- The flag, if any, that stands last and still waits for its value.
def awaiting : List String → Option Setting
  | [] => none
  | argument :: rest =>
    match Setting.ofFlag? argument, rest with
    | some _, _ :: rest => awaiting rest
    | some which, [] => some which
    | none, rest => awaiting rest

theorem items_append {before : List String} (complete : awaiting before = none) (after : List String) :
    items (before ++ after) = items before ++ items after := by
  fun_induction awaiting before with
  | case1 => rfl
  | case2 argument which value rest flag ih =>
    simp [items,flag,ih complete]
  | case3 argument which flag => cases complete
  | case4 argument rest plain ih =>
    simp [items,plain,ih complete]

theorem items_awaiting {before : List String} {which : Setting} (waits : awaiting before = some which) :
    ∃ earlier, items before = earlier ++ [.faulty (.missingValue which.flag)] ∧
      ∀ value after, items (before ++ value :: after) = earlier ++ which.item value :: items after := by
  fun_induction awaiting before with
  | case1 => cases waits
  | case2 argument first value rest flag ih =>
    obtain ⟨earlier,alone,followed⟩ := ih waits
    exact ⟨first.item value :: earlier,by simp [items,flag,alone],by simp [items,flag,followed]⟩
  | case3 argument first flag =>
    cases waits
    exact ⟨[],by simp [items,flag],by simp [items,flag]⟩
  | case4 argument rest plain ih =>
    obtain ⟨earlier,alone,followed⟩ := ih waits
    exact ⟨.ofPlain argument :: earlier,by simp [items,plain,alone],by simp [items,plain,followed]⟩

def Draft.loud (d : Draft) : Draft := { d with verbose := true }

def Options.loud (o : Options) : Options := { o with verbose := true }

namespace Draft

theorem take_loud (d : Draft) (item : Item) : d.loud.take item = (d.take item).map loud := by
  cases item with
  | setting which value => cases which <;> rfl
  | verbose | faulty error => rfl
  | file path =>
    have given : d.loud.path = d.path := rfl
    simp only [take,given]
    split <;> rfl

theorem foldlM_loud (d : Draft) (items : List Item) : items.foldlM take d.loud = (items.foldlM take d).map loud := by
  induction items generalizing d with
  | nil => rfl
  | cons item rest ih =>
    rw [List.foldlM_cons,List.foldlM_cons,take_loud]
    cases d.take item with
    | error e => rfl
    | ok next => exact ih next

theorem finish_loud (d : Draft) : d.loud.finish = d.finish.map Options.loud := by
  have given : d.loud.path = d.path := rfl
  simp only [finish,given]
  split <;> rfl

theorem foldlM_faulty (d : Draft) (earlier : List Item) (error : UsageError) (later : List Item) :
    ∃ e, (earlier ++ .faulty error :: later).foldlM take d = .error e := by
  induction earlier generalizing d with
  | nil => exact ⟨error,rfl⟩
  | cons item rest ih =>
    rw [List.cons_append,List.foldlM_cons]
    cases d.take item with
    | error e => exact ⟨e,rfl⟩
    | ok next => exact ih next

end Draft

namespace Options
variable {before after : List String} {flag : String}

theorem items_verbose (verbose : flag = "-v" ∨ flag = "--verbose") (after : List String) :
    items (flag :: after) = .verbose :: items after := by
  rcases verbose with rfl | rfl <;> rfl

-- Wherever it is not taken for the value of another flag, it makes no difference but to
-- what it asks for.
theorem parse_verbose (verbose : flag = "-v" ∨ flag = "--verbose") (complete : awaiting before = none) :
    parse (before ++ flag :: after) = (parse (before ++ after)).map loud := by
  unfold parse
  rw [items_append complete,items_append complete,items_verbose verbose,List.foldlM_append,List.foldlM_append]
  cases (items before).foldlM Draft.take .blank with
  | error e => rfl
  | ok draft =>
    show (items after).foldlM Draft.take draft.loud >>= Draft.finish =
      ((items after).foldlM Draft.take draft >>= Draft.finish).map loud
    rw [Draft.foldlM_loud]
    cases (items after).foldlM Draft.take draft with
    | error e => rfl
    | ok final => exact final.finish_loud

theorem parse_awaiting {which : Setting} (waits : awaiting before = some which)
    (verbose : flag = "-v" ∨ flag = "--verbose") :
    (∃ e, parse before = .error e) ∧ ∃ e, parse (before ++ [flag]) = .error e := by
  have invalid : which.item flag = .faulty (.invalidValue which.flag flag) := by
    rcases verbose with rfl | rfl <;> rfl
  obtain ⟨earlier,alone,followed⟩ := items_awaiting waits
  obtain ⟨missing,ends⟩ := Draft.foldlM_faulty .blank earlier (.missingValue which.flag) []
  obtain ⟨refused,stops⟩ := Draft.foldlM_faulty .blank earlier (.invalidValue which.flag flag) []
  refine ⟨⟨missing,?_⟩,⟨refused,?_⟩⟩
  · rw [parse,alone,ends]
    rfl
  · rw [parse,followed flag [],invalid,show items [] = [] from rfl,stops]
    rfl

end Options
end Funge.CommandLine
