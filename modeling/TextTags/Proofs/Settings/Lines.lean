import TextTags.Proofs.History
import TextTags.Proofs.Settings
import TextTags.Proofs.Text.Pieces

/-!
# Lines of settings

What a line does depends on no other line. It is passed over, it sets one thing, or it is reported
and sets nothing. So every setting is that of the last line that could set it, and what is wrong
with a file is what is wrong with its lines, in their order.
-/

namespace TextTags

open Text

namespace Settings

/-- The lines of a text. -/
def lines (text : String) : List (List Char) := splitWhere (· == '\n') text.toList

/-- The key and the value of a line that says something and has a colon. -/
def pair? (line : List Char) : Option (String × String) :=
  if isIdle (trim line) then none
  else (splitOnce ':' (trim line)).map fun (key, value) =>
    (.ofList (trim key), .ofList (trim value))

/-- The value is all that stands after the first colon. -/
theorem pair?_eq_some_iff {line : List Char} {key value : String} :
    pair? line = some (key, value) ↔ isIdle (trim line) = false ∧
      ∃ before after, trim line = before ++ ':' :: after ∧ ':' ∉ before ∧
        key = .ofList (trim before) ∧ value = .ofList (trim after) := by
  unfold pair?
  cases isIdle (trim line) with
  | true => simp
  | false =>
    simp only [Bool.false_eq_true, if_false, Option.map_eq_some_iff, Prod.exists, Prod.mk.injEq,
      true_and, splitOnce_eq_some_iff, and_assoc, eq_comm (a := key), eq_comm (a := value)]

/-- The settings after a pair, which is passed over where it cannot be used. -/
def take (s : Settings) (pair : String × String) : Settings :=
  match s.set pair.1 pair.2 with
  | .ok next => next
  | .error _ => s

variable {α : Type} {s : Settings} {key value : String} {line : List Char}

/-- What is wrong where settings are not given. -/
def defectOf : Except SettingDefect Settings → Option SettingDefect
  | .ok _ => none
  | .error defect => some defect

/-- What is wrong with a line, if anything is. -/
def defect? (line : List Char) : Option SettingDefect :=
  if isIdle (trim line) then none else defectOf (({} : Settings).applyLine (trim line))

/-- The key and the value of a line that can be used. -/
def usable? (line : List Char) : Option (String × String) :=
  match defect? line with
  | none => pair? line
  | some _ => none

private theorem eq_error_of_defectOf {set : Except SettingDefect Settings} {defect : SettingDefect}
    (h : defectOf set = some defect) : set = .error defect := by
  cases set with
  | ok => contradiction
  | error => exact congrArg Except.error (Option.some.inj h)

/-- Whether a pair can be used does not depend on the settings before it. -/
theorem defectOf_set (s s' : Settings) (key value : String) :
    defectOf (s.set key value) = defectOf (s'.set key value) := by
  unfold set
  split
  · rfl
  · rfl
  · unfold setKey
    dsimp only
    repeat' split
    all_goals rfl

private theorem set_take (usable : defectOf (s.set key value) = none) :
    s.set key value = .ok (s.take (key, value)) := by
  unfold take
  cases set : s.set key value with
  | ok next => rfl
  | error defect =>
    rw [set] at usable
    contradiction

/-- A line is passed over, or it can be used and does what its pair does, or it is refused; and
which of these it is does not depend on the settings before it. -/
inductive Effect (s : Settings) (line : List Char) : Prop
  | idle (idle : isIdle (trim line)) (entry : usable? line = none) (fine : defect? line = none)
  | use (pair : String × String) (busy : isIdle (trim line) = false)
    (entry : usable? line = some pair) (fine : defect? line = none)
    (set : s.set pair.1 pair.2 = .ok (s.take pair))
    (applied : s.applyLine (trim line) = .ok (s.take pair))
  | refuse (defect : SettingDefect) (busy : isIdle (trim line) = false)
    (entry : usable? line = none) (wrong : defect? line = some defect)
    (applied : s.applyLine (trim line) = .error defect)

private theorem pair?_of_usable? {pair : String × String} (h : usable? line = some pair) :
    pair? line = some pair := by
  unfold usable? at h
  split at h
  · exact h
  · contradiction

/-- Every line has its effect. -/
theorem effect_of_line (s : Settings) (line : List Char) : s.Effect line := by
  cases busy : isIdle (trim line) with
  | true =>
    have fine : defect? line = none := if_pos busy
    refine .idle busy ?_ fine
    rw [usable?, fine]
    exact if_pos busy
  | false =>
    have wrong : defect? line = defectOf (({} : Settings).applyLine (trim line)) :=
      if_neg (by simp [busy])
    have paired : pair? line = _ := if_neg (by simp [busy])
    unfold applyLine at wrong
    cases cut : splitOnce ':' (trim line) with
    | none =>
      rw [cut] at wrong
      refine .refuse .missingColon busy ?_ wrong ?_
      · rw [usable?, wrong]
        rfl
      · rw [applyLine, cut]
    | some parts =>
      let pair : String × String := (.ofList (trim parts.1), .ofList (trim parts.2))
      rw [cut] at wrong paired
      have wrong : defect? line = defectOf (s.set pair.1 pair.2) :=
        wrong.trans (defectOf_set {} s pair.1 pair.2)
      have applied : s.applyLine (trim line) = s.set pair.1 pair.2 := by
        rw [applyLine, cut]
      cases usable : defectOf (s.set pair.1 pair.2) with
      | none =>
        rw [usable] at wrong
        refine .use pair busy ?_ wrong (set_take usable) (applied.trans (set_take usable))
        rw [usable?, wrong]
        exact paired
      | some defect =>
        rw [usable] at wrong
        refine .refuse defect busy ?_ wrong (applied.trans (eq_error_of_defectOf usable))
        rw [usable?, wrong]

/-- The keys and values that can be used: a name to define with any text at all, and each setting
with what reads as a value of it. -/
inductive UsablePair : String → String → Prop
  | definition {name : String} (value : String) (named : name ≠ "") :
    UsablePair ("definitions." ++ name) value
  | timeout {value : String} (read : (seconds? value).isSome) : UsablePair "tags.timeout" value
  | timeBox {value : String} (read : (bool? value).isSome) :
      UsablePair "tags.timeout_when_silent" value
  | workers {value : String} (read : (workers? value).isSome) : UsablePair "tags.workers" value
  | debug {value : String} (read : (bool? value).isSome) : UsablePair "debug.enabled" value
  | showErrors {value : String} (read : (bool? value).isSome) : UsablePair "debug.show_errors" value

private theorem definitionName?_append (name : String) :
    definitionName? ("definitions." ++ name) = some name.toList := by
  have chars : ("definitions." ++ name).toList = definitionStart ++ name.toList :=
    String.toList_append
  rw [definitionName?, chars, if_pos (by simp), List.drop_left]

private theorem eq_append_of_definitionName? {name : List Char}
    (named : definitionName? key = some name) : key = "definitions." ++ String.ofList name := by
  unfold definitionName? at named
  split at named
  · next starts =>
    obtain ⟨rest, chars⟩ := List.isPrefixOf_iff_prefix.1 starts
    rw [← chars, List.drop_left] at named
    obtain rfl := Option.some.inj named
    have whole : ("definitions." ++ String.ofList rest).toList =
        definitionStart ++ (String.ofList rest).toList := String.toList_append
    apply String.toList_injective
    rw [whole, String.toList_ofList, chars]
  · contradiction

private theorem usable_of_sets {next : Settings} (sets : s.Sets key value next) :
    UsablePair key value := by
  cases sets with
  | definition named given =>
    rw [eq_append_of_definitionName? named]
    exact .definition value fun empty ↦ given (String.ofList_eq_empty_iff.1 empty)
  | timeout named read => exact named ▸ .timeout (Option.isSome_of_eq_some read)
  | timeBox named read => exact named ▸ .timeBox (Option.isSome_of_eq_some read)
  | workers named read => exact named ▸ .workers (Option.isSome_of_eq_some read)
  | debug named read => exact named ▸ .debug (Option.isSome_of_eq_some read)
  | showErrors named read => exact named ▸ .showErrors (Option.isSome_of_eq_some read)

private theorem set_of_plain (plain : definitionName? key = none) :
    s.set key value = s.setKey key value := by
  rw [set, plain]

/-- A pair can be used by its key and its value alone. -/
theorem defectOf_set_eq_none_iff : defectOf (s.set key value) = none ↔ UsablePair key value := by
  refine ⟨fun fine ↦ usable_of_sets (sets_of_set (set_take fine)), fun usable ↦ ?_⟩
  cases usable with
  | @definition name value named =>
    rw [set, definitionName?_append]
    cases chars : name.toList with
    | nil => exact absurd (String.toList_eq_nil_iff.1 chars) named
    | cons c rest => rfl
  | timeout read | timeBox read | workers read | debug read | showErrors read =>
    obtain ⟨a, read⟩ := Option.isSome_iff_exists.1 read
    rw [set_of_plain rfl]
    simp only [setKey, String.reduceEq, if_false, if_true, read]
    rfl

private theorem applyLine_of_pair? (pair : pair? line = some (key, value)) :
    s.applyLine (trim line) = s.set key value := by
  unfold pair? at pair
  split at pair
  · contradiction
  · obtain ⟨parts, cut, same⟩ := Option.map_eq_some_iff.1 pair
    cases same
    rw [applyLine, cut]

/-- The lines that set something are those of a usable pair. -/
theorem usable?_eq_some_iff :
    usable? line = some (key, value) ↔ pair? line = some (key, value) ∧ UsablePair key value := by
  constructor
  · intro entry
    cases ({} : Settings).effect_of_line line with
    | use pair busy same fine set =>
      obtain rfl := Option.some.inj (same.symm.trans entry)
      exact ⟨pair?_of_usable? entry, usable_of_sets (sets_of_set set)⟩
    | idle _ hno | refuse _ _ hno => exact absurd (hno.symm.trans entry) nofun
  · rintro ⟨pair, usable⟩
    cases ({} : Settings).effect_of_line line with
    | use other busy same =>
      rw [same]
      exact (pair?_of_usable? same).symm.trans pair
    | idle idle => exact absurd ((if_pos idle).symm.trans pair) nofun
    | refuse defect _ _ _ applied =>
      have fine : defectOf (({} : Settings).set key value) = none :=
        defectOf_set_eq_none_iff.2 usable
      rw [← applyLine_of_pair? pair, applied] at fine
      contradiction

/-- What is wrong with lines, the first having the given number. -/
def defects (number : Nat) : List (List Char) → List LineDefect
  | [] => []
  | line :: rest => ((defect? line).map (⟨number, ·⟩)).toList ++ defects (number + 1) rest

/-- Lines do what the pairs of those do that can be used, and report what is wrong with the
others. -/
theorem applyLines_eq (s : Settings) (number : Nat) (lines : List (List Char)) :
    s.applyLines number lines = ((lines.filterMap usable?).foldl take s, defects number lines) := by
  induction lines generalizing s number with
  | nil => rfl
  | cons line rest ih =>
    rw [applyLines]
    cases s.effect_of_line line with
    | idle idle entry fine =>
      simp only [if_pos idle, ih, List.filterMap_cons, entry, defects, fine]
      rfl
    | use pair busy entry fine _ applied =>
      simp only [busy, applied, ih, List.filterMap_cons, entry, defects, fine]
      rfl
    | refuse defect busy entry wrong applied =>
      simp only [busy, applied, ih, List.filterMap_cons, entry, defects, wrong]
      rfl

private theorem defects_append (number : Nat) (before after : List (List Char)) :
    defects number (before ++ after) =
      defects number before ++ defects (number + before.length) after := by
  induction before generalizing number with
  | nil => rfl
  | cons line rest ih =>
    rw [List.cons_append, defects, ih, defects, List.append_assoc, List.length_cons,
      Nat.add_right_comm, Nat.add_assoc]

private theorem defects_add (number count : Nat) (lines : List (List Char)) :
    defects (number + count) lines =
      (defects number lines).map fun d ↦ { d with line := d.line + count } := by
  induction lines generalizing number with
  | nil => rfl
  | cons line rest ih =>
    rw [defects, defects, List.map_append, ← ih, Nat.add_right_comm]
    cases defect? line <;> rfl

private theorem line_of_mem_defects {number : Nat} {lines : List (List Char)} {d : LineDefect}
    (mem : d ∈ defects number lines) : number ≤ d.line ∧ d.line < number + lines.length := by
  induction lines generalizing number with
  | nil => contradiction
  | cons line rest ih =>
    rw [List.length_cons]
    rcases List.mem_append.1 mem with here | later
    · obtain ⟨defect, -, rfl⟩ := Option.map_eq_some_iff.1 (Option.mem_toList.1 here)
      exact ⟨Nat.le_refl _, by dsimp only; omega⟩
    · have := ih later
      omega

/-- Of one line nothing is told but what is wrong with it. -/
theorem filter_defects (before after : List (List Char)) (line : List Char) :
    (defects 1 (before ++ line :: after)).filter (·.line = before.length + 1) =
      ((defect? line).map (⟨before.length + 1, ·⟩)).toList := by
  have first : (defects 1 before).filter (·.line = before.length + 1) = [] := by
    refine List.filter_eq_nil_iff.2 fun d mem ↦ ?_
    have := line_of_mem_defects mem
    simp only [decide_eq_true_eq]
    omega
  have last : (defects (1 + before.length + 1) after).filter (·.line = before.length + 1) = [] := by
    refine List.filter_eq_nil_iff.2 fun d mem ↦ ?_
    have := line_of_mem_defects mem
    simp only [decide_eq_true_eq]
    omega
  rw [defects_append, defects, List.filter_append, List.filter_append, first, last,
    List.nil_append, List.append_nil, Nat.add_comm 1]
  cases defect? line <;> simp

/-- The pairs of the lines of a text that can be used, in order. -/
def entries (text : String) : List (String × String) := (lines text).filterMap usable?

private theorem ofText_eq (text : String) :
    ofText text = ((entries text).foldl take {}, defects 1 (lines text)) :=
  applyLines_eq {} 1 (lines text)

/-- A usable line changes one thing, whatever the settings before it. -/
theorem sets_of_mem_entries {text : String} {entry : String × String} (mem : entry ∈ entries text)
    (s : Settings) : s.Sets entry.1 entry.2 (s.take entry) := by
  obtain ⟨line, -, found⟩ := List.mem_filterMap.1 mem
  cases s.effect_of_line line with
  | idle _ hno => exact absurd (hno.symm.trans found) nofun
  | use pair _ same _ set =>
    obtain rfl := Option.some.inj (same.symm.trans found)
    exact sets_of_set set
  | refuse _ _ hno => exact absurd (hno.symm.trans found) nofun

/-! ## Settings with a key -/

/-- What the last of the entries with a key gives. -/
def latest (key : String) (read : String → Option α) (entries : List (String × String)) :
    Option α :=
  (entries.filter (·.1 = key)).getLast?.bind fun entry ↦ read entry.2

private theorem findSome?_reverse_eq_latest {read : String → Option α}
    {entries : List (String × String)}
    (readable : ∀ entry ∈ entries, entry.1 = key → (read entry.2).isSome) :
    (entries.reverse.findSome? fun entry ↦ if entry.1 = key then read entry.2 else none) =
      latest key read entries := by
  have filtered : (entries.filterMap fun entry ↦ if entry.1 = key then read entry.2 else none) =
      (entries.filter (·.1 = key)).filterMap fun entry ↦ read entry.2 := by
    simp [List.filterMap_filter]
  rw [← List.getLast?_filterMap, filtered, latest, List.getLast?_filterMap, ← List.head?_reverse]
  cases found : (entries.filter (·.1 = key)).reverse with
  | nil => rfl
  | cons last rest =>
    have mem : last ∈ entries.filter (·.1 = key) := by
      rw [← List.mem_reverse, found]
      exact List.mem_cons_self
    obtain ⟨mem, named⟩ := List.mem_filter.1 mem
    obtain ⟨a, given⟩ := Option.isSome_iff_exists.1 (readable last mem (of_decide_eq_true named))
    simp [given]

/-- A setting that has a key of its own, under which alone it is set. -/
def Governs (key : String) (read : String → Option α) (get : Settings → α) : Prop :=
  ∀ ⦃s next : Settings⦄ ⦃other value : String⦄, s.Sets other value next →
    (other = key ∧ read value = some (get next)) ∨ (other ≠ key ∧ get next = get s)

private theorem Governs.get_ofText {read : String → Option α} {get : Settings → α}
    (h : Governs key read get) (text : String) :
    get (ofText text).1 = (latest key read (entries text)).getD (get {}) := by
  have known {entry : String × String} (mem : entry ∈ entries text) (s : Settings) :=
    h (sets_of_mem_entries mem s)
  rw [ofText_eq, ← findSome?_reverse_eq_latest]
  · refine History.get_foldl get (fun s entry mem ↦ ?_) {}
    rcases known mem s with ⟨named, given⟩ | ⟨other, same⟩
    · rw [if_pos named, given]
      rfl
    · rw [if_neg other]
      exact same
  · intro entry mem named
    rcases known mem {} with ⟨-, given⟩ | ⟨other, -⟩
    · rw [given]
      rfl
    · contradiction

private theorem ne_of_definitionName? {other : String} {name : List Char}
    (named : definitionName? key = some name) (plain : definitionName? other = none) :
    key ≠ other := by
  rintro rfl
  exact absurd (named.symm.trans plain) nofun

private theorem governs_timeout : Governs "tags.timeout" seconds? (·.timeout) := by
  intro s next key value sets
  cases sets with
  | timeout named read => exact .inl ⟨named, read⟩
  | definition named => exact .inr ⟨ne_of_definitionName? named rfl, rfl⟩
  | timeBox named | workers named | debug named | showErrors named =>
    exact .inr ⟨by simp [named], rfl⟩

private theorem governs_timeBox :
    Governs "tags.timeout_when_silent" bool? (·.timeBoxWhenSilent) := by
  intro s next key value sets
  cases sets with
  | timeBox named read => exact .inl ⟨named, read⟩
  | definition named => exact .inr ⟨ne_of_definitionName? named rfl, rfl⟩
  | timeout named | workers named | debug named | showErrors named =>
    exact .inr ⟨by simp [named], rfl⟩

private theorem governs_workers : Governs "tags.workers" workers? (·.workers) := by
  intro s next key value sets
  cases sets with
  | workers named read => exact .inl ⟨named, read⟩
  | definition named => exact .inr ⟨ne_of_definitionName? named rfl, rfl⟩
  | timeout named | timeBox named | debug named | showErrors named =>
    exact .inr ⟨by simp [named], rfl⟩

private theorem governs_debug : Governs "debug.enabled" bool? (·.debug) := by
  intro s next key value sets
  cases sets with
  | debug named read => exact .inl ⟨named, read⟩
  | definition named => exact .inr ⟨ne_of_definitionName? named rfl, rfl⟩
  | timeout named | timeBox named | workers named | showErrors named =>
    exact .inr ⟨by simp [named], rfl⟩

private theorem governs_showErrors : Governs "debug.show_errors" bool? (·.showErrors) := by
  intro s next key value sets
  cases sets with
  | showErrors named read => exact .inl ⟨named, read⟩
  | definition named => exact .inr ⟨ne_of_definitionName? named rfl, rfl⟩
  | timeout named | timeBox named | workers named | debug named =>
    exact .inr ⟨by simp [named], rfl⟩

/-! ## Definitions -/

/-- The name and the text that a pair defines, if it does. -/
def mention? (pair : String × String) : Option (String × String) :=
  match definitionName? pair.1 with
  | some [] | none => none
  | some name => some (.ofList (lowerChars name), pair.2)

/-- The definitions of a text, in order, where a name may stand more than once. -/
def mentions (text : String) : List (String × String) := (entries text).filterMap mention?

/-- Definitions after one more, if there is one. -/
def learn (ds : List (String × String)) : Option (String × String) → List (String × String)
  | some d => define d.1 d.2 ds
  | none => ds

private theorem definitions_take (s : Settings) (pair : String × String) :
    (s.take pair).definitions = learn s.definitions (mention? pair) := by
  unfold take mention? set
  cases named : definitionName? pair.1 with
  | some name => cases name <;> rfl
  | none =>
    dsimp only
    split
    · next next given =>
      cases sets_of_setKey given with
      | definition other => exact absurd (named.symm.trans other) nofun
      | timeout | timeBox | workers | debug | showErrors => rfl
    · rfl

/-- Definitions made one after another. -/
def defined (mentions : List (String × String)) : List (String × String) :=
  mentions.foldl (fun ds d ↦ define d.1 d.2 ds) []

/-- The definitions that are read are those of the usable lines, one after another. -/
theorem definitions_ofText (text : String) :
    (ofText text).1.definitions = defined (mentions text) := by
  have fused : (((entries text).foldl take ({} : Settings)).definitions) =
      (entries text).foldl (fun ds pair ↦ learn ds (mention? pair)) [] :=
    (List.foldl_hom Settings.definitions fun s pair ↦ (definitions_take s pair).symm).symm
  rw [ofText_eq, fused, defined, mentions, List.foldl_filterMap]
  refine congrArg (fun step ↦ (entries text).foldl step []) (funext₂ fun ds pair ↦ ?_)
  cases mention? pair <;> rfl

/-- A name that is there keeps its place, and one that is not comes last. -/
theorem names_define (name text : String) (ds : List (String × String)) :
    (define name text ds).map (·.1) =
      if name ∈ ds.map (·.1) then ds.map (·.1) else ds.map (·.1) ++ [name] := by
  induction ds with
  | nil => rfl
  | cons d rest ih =>
    rw [define]
    by_cases here : d.1 = name
    · simp [here]
    · rw [if_neg here, List.map_cons, ih, List.map_cons]
      simp only [List.mem_cons, Ne.symm here, false_or]
      split <;> rfl

private theorem lookup_define (name text other : String) (ds : List (String × String)) :
    (define name text ds).lookup other = if name = other then some text else ds.lookup other := by
  fun_induction define name text ds with
  | case1 =>
    rw [List.lookup_cons, List.lookup_nil]
    grind
  | case2 d rest here =>
    obtain ⟨key, old⟩ := d
    rw [List.lookup_cons, List.lookup_cons]
    grind
  | case3 d rest elsewhere ih =>
    obtain ⟨key, old⟩ := d
    rw [List.lookup_cons, List.lookup_cons, ih]
    grind

private theorem defined_append_singleton (mentions : List (String × String)) (d : String × String) :
    defined (mentions ++ [d]) = define d.1 d.2 (defined mentions) := by
  rw [defined, List.foldl_append]
  rfl

/-- Each name stands where it first came. -/
theorem names_defined (mentions : List (String × String)) :
    (defined mentions).map (·.1) = (mentions.map (·.1)).eraseDups := by
  induction mentions using List.reverseRecOn with
  | nil => rfl
  | append_singleton earlier d ih =>
    rw [defined_append_singleton, names_define, ih, List.map_append, List.eraseDups_append]
    by_cases known : d.1 ∈ earlier.map (·.1)
    · rw [if_pos (List.mem_eraseDups.2 known)]
      simp [List.removeAll, known]
    · rw [if_neg (mt List.mem_eraseDups.1 known)]
      simp [List.removeAll, known, List.eraseDups_cons]

private theorem nodup_names_defined (mentions : List (String × String)) :
    ((defined mentions).map (·.1)).Nodup := by
  induction mentions using List.reverseRecOn with
  | nil => exact List.nodup_nil
  | append_singleton earlier d ih =>
    rw [defined_append_singleton, names_define]
    split
    · exact ih
    · next new => exact List.nodup_append.2 ⟨ih, List.nodup_singleton _, by grind⟩

/-- A name has the text with which it last came. -/
theorem lookup_defined (mentions : List (String × String)) (name : String) :
    (defined mentions).lookup name = latest name some mentions := by
  have one (ds : List (String × String)) (d : String × String) (_ : d ∈ mentions) :
      (define d.1 d.2 ds).lookup name =
        (if d.1 = name then some d.2 else none).or (ds.lookup name) := by
    rw [lookup_define]
    split <;> rfl
  exact (History.look_foldl (List.lookup name) one []).trans
    ((Option.or_none ..).trans (findSome?_reverse_eq_latest fun _ _ _ ↦ rfl))

/-! ## Texts of settings -/

private theorem lines_append (a b : String) : lines (a ++ "\n" ++ b) = lines a ++ lines b := by
  rw [lines, String.toList_append, String.toList_append, List.append_assoc]
  exact splitWhere_append (by decide) a.toList b.toList

private theorem length_lines (text : String) : (lines text).length = text.toList.count '\n' + 1 :=
  length_splitWhere _ _

private theorem defects_ofText_append (a b : String) :
    (ofText (a ++ "\n" ++ b)).2 = (ofText a).2 ++
      (ofText b).2.map fun d ↦ { d with line := d.line + (a.toList.count '\n' + 1) } := by
  simp only [ofText_eq, lines_append, defects_append, length_lines, defects_add]

/-- What a line with a number makes of the settings before it, and what is told of it. -/
inductive Treats (number : Nat) (line : List Char) (s : Settings) :
    Settings → List LineDefect → Prop
  | idle (idle : isIdle (trim line)) : Treats number line s s []
  | use {key value : String} {next : Settings} (busy : isIdle (trim line) = false)
    (entry : usable? line = some (key, value)) (pair : pair? line = some (key, value))
    (sets : s.Sets key value next) : Treats number line s next []
  | refuse {defect : SettingDefect} (busy : isIdle (trim line) = false)
    (entry : usable? line = none) (applied : s.applyLine (trim line) = .error defect) :
    Treats number line s s [⟨number, defect⟩]

private theorem treats_of_lines_eq {text : String} {before after : List (List Char)}
    {line : List Char} (parts : lines text = before ++ line :: after) :
    Treats (before.length + 1) line (({} : Settings).applyLines 1 before).1
      (({} : Settings).applyLines 1 (before ++ [line])).1
      ((ofText text).2.filter (·.line = before.length + 1)) := by
  rw [ofText_eq, parts, filter_defects, applyLines_eq, applyLines_eq, List.filterMap_append,
    List.foldl_append, List.filterMap_cons, List.filterMap_nil]
  dsimp only
  generalize (before.filterMap usable?).foldl take {} = s
  cases s.effect_of_line line with
  | idle idle entry fine =>
    rw [entry, fine]
    exact .idle idle
  | use pair busy entry fine set =>
    rw [entry, fine]
    exact .use busy entry (pair?_of_usable? entry) (sets_of_set set)
  | refuse defect busy entry wrong applied =>
    rw [entry, wrong]
    exact .refuse busy entry applied

/-- The lines of settings are read each for itself. What is wrong with a text after another is told
with its lines counted on; a line that says something sets its one thing, or is told of once and
changes nothing; every setting is that of the last usable line for it, the definitions in the order
in which their names first came; and which lines are usable is told by their keys and values. -/
theorem ofText_lines (text : String) :
    (∀ more : String, (ofText (text ++ "\n" ++ more)).2 = (ofText text).2 ++
      (ofText more).2.map fun d ↦ { d with line := d.line + (text.toList.count '\n' + 1) }) ∧
    (∀ (before after : List (List Char)) (line : List Char),
      lines text = before ++ line :: after →
      Treats (before.length + 1) line (({} : Settings).applyLines 1 before).1
        (({} : Settings).applyLines 1 (before ++ [line])).1
        ((ofText text).2.filter (·.line = before.length + 1))) ∧
    ((ofText text).1.timeout =
        (latest "tags.timeout" seconds? (entries text)).getD defaultTimeout ∧
      (ofText text).1.timeBoxWhenSilent =
        (latest "tags.timeout_when_silent" bool? (entries text)).getD false ∧
      (ofText text).1.workers =
        (latest "tags.workers" workers? (entries text)).getD Pool.defaultWorkers ∧
      (ofText text).1.debug = (latest "debug.enabled" bool? (entries text)).getD false ∧
      (ofText text).1.showErrors =
        (latest "debug.show_errors" bool? (entries text)).getD true) ∧
    (((ofText text).1.definitions.map (·.1)).Nodup ∧
      (ofText text).1.definitions.map (·.1) = ((mentions text).map (·.1)).eraseDups ∧
      ∀ name, (ofText text).1.definitions.lookup name = latest name some (mentions text)) ∧
    ∀ (line : List Char) (key value : String),
      (pair? line = some (key, value) ↔ isIdle (trim line) = false ∧
        ∃ before after, trim line = before ++ ':' :: after ∧ ':' ∉ before ∧
          key = .ofList (trim before) ∧ value = .ofList (trim after)) ∧
      (usable? line = some (key, value) ↔
        pair? line = some (key, value) ∧ UsablePair key value) := by
  refine ⟨defects_ofText_append text, fun before after line ↦ treats_of_lines_eq,
    ⟨governs_timeout.get_ofText text,
    governs_timeBox.get_ofText text, governs_workers.get_ofText text, governs_debug.get_ofText text,
    governs_showErrors.get_ofText text⟩, ?_,
    fun line key value ↦ ⟨pair?_eq_some_iff, usable?_eq_some_iff⟩⟩
  rw [definitions_ofText]
  exact ⟨nodup_names_defined _, names_defined _, lookup_defined _⟩

/-- A line that is refused between two that are used. -/
theorem ofText_lines_refused :
    lines "tags.workers: 3\ntags.workers: 0\ndefinitions.Home: a:b" =
        ["tags.workers: 3".toList] ++ "tags.workers: 0".toList ::
          ["definitions.Home: a:b".toList] ∧
      Treats 2 "tags.workers: 0".toList
        (({} : Settings).applyLines 1 ["tags.workers: 3".toList]).1
        (({} : Settings).applyLines 1 ["tags.workers: 3".toList, "tags.workers: 0".toList]).1
        ((ofText "tags.workers: 3\ntags.workers: 0\ndefinitions.Home: a:b").2.filter
          (·.line = 2)) :=
  have parts : lines "tags.workers: 3\ntags.workers: 0\ndefinitions.Home: a:b" =
        ["tags.workers: 3".toList] ++ "tags.workers: 0".toList ::
          ["definitions.Home: a:b".toList] := by decide
  ⟨parts, (ofText_lines _).2.1 _ _ _ parts⟩

end Settings

end TextTags
