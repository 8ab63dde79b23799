import TextTags.Proofs.Settings

/-!
# Arguments put together

What a command line asks for is put together of what its parts ask for. An argument is read alone or
with the next one as its value, so that a command line may be cut wherever no value is cut off; and
what goes wrong in it, unless a value was missing, goes wrong whatever follows.
-/

namespace TextTags

namespace Arguments

/-- What arguments ask for after others: switches stay set, texts follow those before, and of two
files or two time limits the later counts. -/
def merge (a b : Arguments) : Arguments where
  settings := if b.settings = .search then a.settings else b.settings
  timeout := b.timeout.or a.timeout
  debug := a.debug || b.debug
  verbose := a.verbose || b.verbose
  quiet := a.quiet || b.quiet
  texts := a.texts ++ b.texts

variable {a b : Arguments} {rest left later : List String} {letters : List Char}

private theorem merge_empty (a : Arguments) : a.merge {} = a := by simp [merge]

private theorem takeFile_ne_search (attached : List Char) (rest : List String) :
    (takeFile attached rest).1 ≠ .search := by
  unfold takeFile
  repeat' split
  all_goals nofun

private theorem setTimeout_merge (a b : Arguments) (value : String) :
    (a.merge b).setTimeout value = (b.setTimeout value).map a.merge := by
  unfold setTimeout
  split <;> rfl

/-- What the options of an argument ask for does not depend on the arguments before. -/
theorem options_merge (a b : Arguments) (rest : List String) (letters : List Char) :
    (a.merge b).options rest letters = (b.options rest letters).map (Prod.map a.merge id) := by
  induction letters generalizing b with
  | nil => rfl
  | cons option more ih =>
    have debug : { a.merge b with debug := true } = a.merge { b with debug := true } := by
      simp [merge]
    have verbose : { a.merge b with verbose := true } = a.merge { b with verbose := true } := by
      simp [merge]
    have quiet : { a.merge b with quiet := true } = a.merge { b with quiet := true } := by
      simp [merge]
    unfold options
    rw [debug, verbose, quiet, ih, ih, ih]
    simp only [setTimeout_merge]
    repeat' split
    · rfl
    · rfl
    · rfl
    · simp [Except.map, merge, takeFile_ne_search]
    · cases takeValue option more rest with
      | error => rfl
      | ok taken =>
        simp only [bind, Except.bind, pure, Except.pure]
        cases b.setTimeout taken.1 <;> rfl
    · cases takeValue option more rest with
      | error => rfl
      | ok taken => simp [bind, Except.bind, pure, Except.pure, Except.map, merge]
    · rfl

private theorem dash_of_not_text {arg : String} (h : ¬(!hasDash arg || decide (arg = "-")) = true) :
    hasDash arg ∧ arg ≠ "-" := by
  simpa [not_or] using h

/-- The options of an argument are read, and then what they leave. -/
theorem more_of_dash {arg : String} (marks : arg ≠ "--") (dash : hasDash arg ∧ arg ≠ "-")
    (a : Arguments) (rest : List String) :
    a.more (arg :: rest) =
      a.options rest (arg.toList.drop 1) >>= fun read ↦ read.1.more read.2 := by
  rw [more, if_neg marks, if_neg (by simp [dash])]
  split
  · next eq => rw [eq]; rfl
  · next eq => rw [eq]; rfl

private theorem more_merge (a b : Arguments) (args : List String) :
    (a.merge b).more args = (b.more args).map a.merge := by
  fun_induction more b args with
  | case1 b =>
    rw [more]
    rfl
  | case2 b rest =>
    rw [more, if_pos rfl]
    simp [Except.map, merge]
  | case3 b arg rest marks plain ih =>
    have texts : { a.merge b with texts := (a.merge b).texts ++ [arg] } =
        a.merge { b with texts := b.texts ++ [arg] } := by
      simp [merge]
    rw [more, if_neg marks, if_pos plain, texts, ih]
  | case4 b arg rest marks dash next left read ih =>
    rw [more_of_dash marks (dash_of_not_text dash), options_merge, read]
    exact ih
  | case5 b arg rest marks dash defect read =>
    rw [more_of_dash marks (dash_of_not_text dash), options_merge, read]
    rfl

private theorem more_eq_merge (a : Arguments) (args : List String) :
    a.more args = (parse args).map a.merge := by
  rw [parse, ← more_merge, merge_empty]

/-- Whether a letter is a switch. -/
def isSwitch (option : Char) : Bool := option == 'd' || option == 'v' || option == 'q'

/-- Whether the letters of an argument end in an option that takes the next argument: one that needs
a value, or the one for a file where the next argument is no option. -/
def takesNext (next : String) : List Char → Bool
  | [] => false
  | option :: more =>
    if isSwitch option then takesNext next more
    else more.isEmpty && (option == 't' || option == 'e' || option == 'f' && !hasDash next)

private theorem setTimeout_ne_missing {option : Char} (text : String) :
    a.setTimeout text ≠ .error (.missingArgument option) := by
  unfold setTimeout
  split <;> nofun

/-- What the letters of an argument do, whatever arguments follow. -/
inductive Reads (a : Arguments) (letters : List Char) : Prop
  /-- They are read alone. -/
  | alone (result : Except ArgumentDefect Arguments)
    (found : ∀ option, result ≠ .error (.missingArgument option))
    (takes : ∀ next, takesNext next letters = false)
    (eq : ∀ rest, a.options rest letters = result.map (·, rest))
  /-- The next argument is a value that they need. -/
  | value (option : Char) (use : String → Except ArgumentDefect Arguments)
    (found : ∀ value option, use value ≠ .error (.missingArgument option))
    (takes : ∀ next, takesNext next letters = true)
    (last : a.options [] letters = .error (.missingArgument option))
    (more : ∀ next others, a.options (next :: others) letters = (use next).map (·, others))
  /-- The next argument names a file, unless it is an option. -/
  | file (use : SettingsChoice → Arguments) (ends : letters.getLast? = some 'f')
    (takes : ∀ next, takesNext next letters = !hasDash next)
    (last : a.options [] letters = .ok (use .skip, []))
    (more : ∀ next others, a.options (next :: others) letters =
      .ok (if hasDash next then (use .skip, next :: others) else (use (.file next), others)))

/-- A switch changes nothing in what the letters after it do. -/
theorem Reads.switch {a' : Arguments} {option : Char} {more : List Char} (h : a'.Reads more)
    (switch : isSwitch option)
    (same : ∀ rest, a.options rest (option :: more) = a'.options rest more) :
    a.Reads (option :: more) := by
  have takes (next : String) : takesNext next (option :: more) = takesNext next more :=
    if_pos switch
  cases h with
  | alone result found hno eq =>
    exact .alone result found (fun next ↦ (takes next).trans (hno next))
      fun rest ↦ (same rest).trans (eq rest)
  | value needed use found all last more =>
    exact .value needed use found (fun next ↦ (takes next).trans (all next)) ((same []).trans last)
      fun next others ↦ (same _).trans (more next others)
  | file use ends plain last more =>
    refine .file use ?_ (fun next ↦ (takes next).trans (plain next)) ((same []).trans last)
      fun next others ↦ (same _).trans (more next others)
    rw [List.getLast?_cons, ends]
    rfl

private theorem Reads.of_value {option : Char} {more : List Char}
    (use : String → Except ArgumentDefect Arguments) (needs : option = 't' ∨ option = 'e')
    (found : ∀ value option, use value ≠ .error (.missingArgument option))
    (eq : ∀ rest, a.options rest (option :: more) =
      takeValue option more rest >>= fun taken ↦ (use taken.1).map (·, taken.2)) :
    a.Reads (option :: more) := by
  have other : isSwitch option = false := by rcases needs with rfl | rfl <;> rfl
  cases more with
  | nil =>
    refine .value option use found (fun next ↦ ?_) (eq []) fun next _ ↦ eq _
    rcases needs with rfl | rfl <;> rfl
  | cons c rest =>
    exact .alone (use (.ofList (c :: rest))) (found _) (fun next ↦ by simp [takesNext, other]) eq

/-- The letters of an argument do one thing of three, whatever follows. -/
theorem reads_letters (a : Arguments) (letters : List Char) : a.Reads letters := by
  -- A switch is read and the rest of the letters decide. The first letter that is none takes the
  -- others as its text or, where it is the last one, the argument that follows.
  induction letters generalizing a with
  | nil => exact .alone (.ok a) (fun _ ↦ by simp) (fun _ ↦ rfl) fun _ ↦ rfl
  | cons option more ih =>
    by_cases d : option = 'd'
    · exact (ih _).switch (by simp [isSwitch, d]) fun rest ↦ by rw [options, if_pos d]
    by_cases v : option = 'v'
    · exact (ih _).switch (by simp [isSwitch, v]) fun rest ↦ by rw [options, if_neg d, if_pos v]
    by_cases q : option = 'q'
    · exact (ih _).switch (by simp [isSwitch, q]) fun rest ↦ by
        rw [options, if_neg d, if_neg v, if_pos q]
    have other : isSwitch option = false := by simp [isSwitch, d, v, q]
    have eq (rest : List String) : a.options rest (option :: more) =
        if option = 'f' then
          .ok ({ a with settings := (takeFile more rest).1 }, (takeFile more rest).2)
        else if option = 't' then takeValue option more rest >>= fun taken ↦
          (a.setTimeout taken.1).map (·, taken.2)
        else if option = 'e' then takeValue option more rest >>= fun taken ↦
          (Except.ok { a with texts := a.texts ++ [taken.1] }).map (·, taken.2)
        else .error (.unknownOption option) := by
      rw [options, if_neg d, if_neg v, if_neg q]
      rfl
    by_cases f : option = 'f'
    · simp only [if_pos f] at eq
      cases more with
      | nil =>
        subst f
        refine .file (fun settings ↦ { a with settings }) rfl (fun _ ↦ by simp [takesNext, other])
          (eq []) fun next others ↦ (eq _).trans ?_
        cases dash : hasDash next <;> simp [takeFile, dash]
      | cons c rest =>
        exact .alone (.ok { a with settings := .file (.ofList (c :: rest)) }) (fun _ ↦ by simp)
          (fun next ↦ by simp [takesNext, other]) eq
    simp only [if_neg f] at eq
    by_cases t : option = 't'
    · simp only [if_pos t] at eq
      exact .of_value a.setTimeout (.inl t) (fun text _ ↦ setTimeout_ne_missing text) eq
    simp only [if_neg t] at eq
    by_cases e : option = 'e'
    · simp only [if_pos e] at eq
      exact .of_value (fun text ↦ .ok { a with texts := a.texts ++ [text] }) (.inr e)
        (fun _ _ ↦ by simp) eq
    simp only [if_neg e] at eq
    exact .alone (.error (.unknownOption option)) (fun _ ↦ by simp)
      (fun next ↦ by simp [takesNext, other, f, t, e]) eq

/-! ## Reading before other arguments -/

/-- Whether an argument ends in the option for a file, which takes the next argument unless that is
an option. -/
def endsInFile (arg : String) : Bool := hasDash arg && arg.toList.getLast? == some 'f'

/-- Whether no argument is taken for the name of a file when others come after. -/
def Parted (args later : List String) : Prop :=
  later = [] ∨ (∃ first ∈ later.head?, hasDash first) ∨ ∀ last ∈ args.getLast?, ¬endsInFile last

/-- What an option takes of the arguments after its own is at their start. -/
theorem suffix_options (read : a.options rest letters = .ok (b, left)) : left <:+ rest := by
  cases a.reads_letters letters with
  | alone result _ _ eq =>
    rw [eq] at read
    cases result with
    | error => contradiction
    | ok => exact (Prod.mk.inj (Except.ok.inj read)).2 ▸ List.suffix_rfl
  | value option use _ _ last more =>
    cases rest with
    | nil => exact absurd (last.symm.trans read) nofun
    | cons next others =>
      rw [more] at read
      cases given : use next with
      | error =>
        rw [given] at read
        contradiction
      | ok =>
        rw [given] at read
        exact (Prod.mk.inj (Except.ok.inj read)).2 ▸ List.suffix_cons next others
  | file use _ _ last more =>
    cases rest with
    | nil =>
      cases last.symm.trans read
      exact List.suffix_rfl
    | cons next others =>
      rw [more] at read
      split at read
      · cases read
        exact List.suffix_rfl
      · cases read
        exact List.suffix_cons next _

/-- An argument that is read is read in the same way where more arguments follow, unless one of them
is taken for the name of a file. -/
theorem options_append (read : a.options rest letters = .ok (b, left))
    (apart : rest = [] → letters.getLast? = some 'f' → ∀ next ∈ later.head?, hasDash next) :
    a.options (rest ++ later) letters = .ok (b, left ++ later) := by
  cases a.reads_letters letters with
  | alone result _ _ eq =>
    rw [eq] at read ⊢
    cases result with
    | error => contradiction
    | ok =>
      obtain ⟨rfl, rfl⟩ := Prod.mk.inj (Except.ok.inj read)
      rfl
  | value option use _ _ last more =>
    cases rest with
    | nil => exact absurd (last.symm.trans read) nofun
    | cons next others =>
      rw [List.cons_append]
      rw [more] at read ⊢
      cases given : use next with
      | error =>
        rw [given] at read
        contradiction
      | ok =>
        rw [given] at read
        obtain ⟨rfl, rfl⟩ := Prod.mk.inj (Except.ok.inj read)
        rfl
  | file use ends _ last more =>
    cases rest with
    | nil =>
      cases last.symm.trans read
      cases later with
      | nil => exact last
      | cons next others => rw [List.nil_append, more, if_pos (apart rfl ends next rfl)]
    | cons next others =>
      rw [List.cons_append]
      rw [more] at read ⊢
      split at read
      · next dash =>
        cases read
        exact congrArg Except.ok (if_pos dash)
      · next plain =>
        cases read
        exact congrArg Except.ok (if_neg plain)

/-- What is wrong with an argument stays wrong where more arguments follow, unless one was
missing. -/
theorem options_append_of_defect {defect : ArgumentDefect}
    (read : a.options rest letters = .error defect)
    (found : ∀ option, defect ≠ .missingArgument option) (later : List String) :
    a.options (rest ++ later) letters = .error defect := by
  cases a.reads_letters letters with
  | alone result _ _ eq =>
    rw [eq] at read ⊢
    cases result with
    | error => exact read
    | ok => contradiction
  | value option use _ _ last more =>
    cases rest with
    | nil => exact absurd (Except.error.inj (last.symm.trans read)).symm (found option)
    | cons next others =>
      rw [List.cons_append]
      rw [more] at read ⊢
      cases given : use next with
      | error =>
        rw [given] at read
        exact read
      | ok =>
        rw [given] at read
        contradiction
  | file use _ _ last more =>
    cases rest with
    | nil => exact absurd (last.symm.trans read) nofun
    | cons next others => exact absurd ((more next others).symm.trans read) nofun

private theorem getLast?_letters {arg : String} (ends : (arg.toList.drop 1).getLast? = some 'f') :
    arg.toList.getLast? = some 'f' := by
  cases cs : arg.toList with
  | nil =>
    rw [cs] at ends
    contradiction
  | cons first letters =>
    rw [cs, List.drop_one, List.tail_cons] at ends
    rw [List.getLast?_cons, ends]
    rfl

private theorem Parted.of_suffix {args : List String} (h : Parted args later)
    (suffix : left <:+ args) :
    Parted left later := by
  refine h.imp_right <| .imp_right fun plain last mem ↦ plain last ?_
  obtain ⟨before, rfl⟩ := suffix
  rw [List.getLast?_append, Option.mem_def.1 mem]
  rfl

/-- The last of the arguments takes none of those that come later. -/
theorem Parted.apart {arg : String} (h : Parted [arg] later) (dash : hasDash arg)
    (ends : (arg.toList.drop 1).getLast? = some 'f') : ∀ next ∈ later.head?, hasDash next := by
  rintro next mem
  rcases h with rfl | ⟨first, mem', dash⟩ | plain
  · contradiction
  · rwa [← Option.mem_unique mem' mem]
  · exact absurd (plain arg rfl) (by simp [endsInFile, dash, getLast?_letters ends])

/-- Arguments that are read, and that end no reading of options, are read in the same way before
others. -/
theorem more_append {args : List String} (read : a.more args = .ok b) (unmarked : "--" ∉ args)
    (parted : Parted args later) : a.more (args ++ later) = b.more later := by
  fun_induction more a args with
  | case1 a =>
    cases read
    rfl
  | case2 a rest => exact absurd List.mem_cons_self unmarked
  | case3 a arg rest marks plain ih =>
    rw [List.cons_append, more, if_neg marks, if_pos plain]
    exact ih read (fun mem ↦ unmarked (List.mem_cons_of_mem _ mem))
      (parted.of_suffix (List.suffix_cons arg rest))
  | case4 a arg rest marks dash next left eq ih =>
    have dash := dash_of_not_text dash
    have suffix : left <:+ arg :: rest := (suffix_options eq).trans (List.suffix_cons arg rest)
    have eq' : a.options (rest ++ later) (arg.toList.drop 1) = .ok (next, left ++ later) := by
      refine options_append eq ?_
      rintro rfl
      exact parted.apart dash.1
    rw [List.cons_append, more_of_dash marks dash, eq']
    exact ih read (fun mem ↦ unmarked (suffix.subset mem)) (parted.of_suffix suffix)
  | case5 => contradiction

/-- A defect other than a missing argument stays, whatever arguments come after. -/
theorem more_append_of_defect {args : List String} {defect : ArgumentDefect}
    (read : a.more args = .error defect) (found : ∀ option, defect ≠ .missingArgument option)
    (later : List String) : a.more (args ++ later) = .error defect := by
  fun_induction more a args with
  | case1 => contradiction
  | case2 => contradiction
  | case3 a arg rest marks plain ih =>
    rw [List.cons_append, more, if_neg marks, if_pos plain]
    exact ih read
  | case4 a arg rest marks dash next left eq ih =>
    have eq' : a.options (rest ++ later) (arg.toList.drop 1) = .ok (next, left ++ later) := by
      refine options_append eq ?_
      -- After the last argument nothing is left in which anything could be wrong.
      rintro rfl
      rw [List.suffix_nil.1 (suffix_options eq), more] at read
      contradiction
    rw [List.cons_append, more_of_dash marks (dash_of_not_text dash), eq']
    exact ih read
  | case5 a arg rest marks dash defect' eq =>
    cases read
    rw [List.cons_append, more_of_dash marks (dash_of_not_text dash),
      options_append_of_defect eq found later]
    rfl

/-! ## Reading piece by piece -/

private theorem options_of_takesNext {next : String} (takes : takesNext next letters)
    (rest : List String) :
    a.options (next :: rest) letters =
      (a.options [next] letters).map fun read ↦ (read.1, rest) := by
  cases a.reads_letters letters with
  | alone _ _ hno _ => exact absurd ((hno next).symm.trans takes) nofun
  | value _ use _ _ _ more =>
    rw [more, more]
    cases use next <;> rfl
  | file use _ plain _ more =>
    have plain : ¬hasDash next := by simpa [plain] using takes
    rw [more, more, if_neg plain, if_neg plain]
    rfl

private theorem options_of_not_takesNext {next : String} (takes : takesNext next letters = false)
    (rest : List String) : a.options (next :: rest) letters =
      (a.options [] letters).map fun read ↦ (read.1, next :: rest) := by
  cases a.reads_letters letters with
  | alone result _ _ eq =>
    rw [eq, eq]
    cases result <;> rfl
  | value _ _ _ all _ _ => exact absurd (takes.symm.trans (all next)) nofun
  | file use _ plain last more =>
    have dash : hasDash next := by simpa [plain] using takes
    rw [more, last, if_pos dash]
    rfl

/-- The pieces in which arguments are read: an argument with the next one where it takes that, and
everything from two dashes alone on. -/
def pieces : List String → List (List String)
  | [] => []
  | [arg] => [[arg]]
  | arg :: next :: rest =>
    if arg = "--" then [arg :: next :: rest]
    else if hasDash arg && takesNext next (arg.toList.drop 1) then [arg, next] :: pieces rest
    else [arg] :: pieces (next :: rest)

/-- Every argument is in one piece, in its place. -/
theorem flatten_pieces (args : List String) : (pieces args).flatten = args := by
  fun_induction pieces args with
  | case1 => rfl
  | case2 => rfl
  | case3 => simp
  | case4 _ _ _ _ _ ih => simp [ih]
  | case5 _ _ _ _ _ ih => simp [ih]

private theorem length_of_mem_pieces {args piece : List String} (mem : piece ∈ pieces args) :
    piece.length = 1 ∨ piece.length = 2 ∨ piece.head? = some "--" := by
  fun_induction pieces args with
  | case1 => contradiction
  | case2 => simp_all
  | case3 => simp_all
  | case4 _ _ _ _ _ ih =>
    rcases List.mem_cons.1 mem with rfl | mem
    · exact .inr (.inl rfl)
    · exact ih mem
  | case5 _ _ _ _ _ ih =>
    rcases List.mem_cons.1 mem with rfl | mem
    · exact .inl rfl
    · exact ih mem

/-- Reading arguments is reading piece after piece, and nothing after a piece with a defect. -/
theorem more_pieces (a : Arguments) (args : List String) :
    a.more args = (pieces args).foldlM more a := by
  -- Along the cutting into pieces: a piece is two arguments just where the first takes the second.
  fun_induction pieces args generalizing a with
  | case1 =>
    rw [more]
    rfl
  | case2 arg => exact (bind_pure (a.more [arg])).symm
  | case3 next rest => exact (bind_pure (a.more ("--" :: next :: rest))).symm
  | case4 arg next rest marks takes ih =>
    obtain ⟨dash, takes⟩ := Bool.and_eq_true_iff.1 takes
    have single : arg ≠ "-" := by
      rintro rfl
      contradiction
    have dash : hasDash arg ∧ arg ≠ "-" := ⟨dash, single⟩
    have read := options_of_takesNext (a := a) takes
    rw [List.foldlM_cons, more_of_dash marks dash, more_of_dash marks dash, read rest, read []]
    cases a.options [next] (arg.toList.drop 1) with
    | error => rfl
    | ok taken =>
      change taken.1.more rest = taken.1.more [] >>= _
      rw [ih, more]
      rfl
  | case5 arg next rest marks takes ih =>
    by_cases dash : (!hasDash arg || decide (arg = "-")) = true
    · rw [List.foldlM_cons, more, if_neg marks, if_pos dash, ih, more, if_neg marks,
        if_pos dash, more]
      rfl
    · have dash := dash_of_not_text dash
      have alone : takesNext next (arg.toList.drop 1) = false := by simpa [dash] using takes
      have read := options_of_not_takesNext (a := a) alone
      rw [List.foldlM_cons, more_of_dash marks dash, more_of_dash marks dash, read rest]
      cases ends : a.options [] (arg.toList.drop 1) with
      | error => rfl
      | ok taken =>
        obtain ⟨b, left⟩ := taken
        obtain rfl := List.suffix_nil.1 (suffix_options ends)
        change b.more (next :: rest) = b.more [] >>= _
        rw [ih, more]
        rfl

private theorem parse_pieces (args : List String) :
    parse args = (pieces args).foldlM (fun a piece ↦ (parse piece).map a.merge) {} := by
  have each : more = fun a piece ↦ (parse piece).map a.merge := by
    funext a piece
    exact a.more_eq_merge piece
  rw [← each]
  exact more_pieces {} args

/-- A command line may be cut in two. If the first part is read, no two dashes alone are in it, and
it does not end in an option for a file that the second part would name, then the whole asks for
what the first part asks and what the second asks after it, or has the defect of the second. A
defect of the first part is one of the whole, unless an argument was missing. Each argument is read
once, in its place: alone, as the value of the option before it, or after two dashes; and to read
them all is to read these pieces in turn. -/
theorem parse_append (args : List String) :
    (∀ a, parse args = .ok a → "--" ∉ args → ∀ later, Parted args later →
      parse (args ++ later) = (parse later).map a.merge) ∧
    (∀ defect, parse args = .error defect → (∀ option, defect ≠ .missingArgument option) →
      ∀ later, parse (args ++ later) = .error defect) ∧
    (pieces args).flatten = args ∧
    (∀ piece ∈ pieces args, piece.length = 1 ∨ piece.length = 2 ∨ piece.head? = some "--") ∧
    parse args = (pieces args).foldlM (fun a piece ↦ (parse piece).map a.merge) {} := by
  refine ⟨fun a read unmarked later parted ↦ ?_, fun defect read found later ↦ ?_,
    flatten_pieces args, fun piece mem ↦ length_of_mem_pieces mem, parse_pieces args⟩
  · rw [← more_eq_merge]
    exact more_append read unmarked parted
  · exact more_append_of_defect read found later

/-- After a time limit and a text come an option for a file without a name, since an option follows
it, and a text with its option; and an option that there is not is one before anything else. -/
theorem parse_append_mixed :
    let args := ["-t", "2.5", "first"]
    let later := ["-qf", "-e", "second"]
    parse args = .ok { timeout := some 2.5, texts := ["first"] } ∧ "--" ∉ args ∧ Parted args later ∧
      parse (args ++ later) = .ok
        { settings := .skip, timeout := some 2.5, quiet := true, texts := ["first", "second"] } ∧
      parse ["-dx"] = .error (.unknownOption 'x') ∧
      parse (["-dx"] ++ later) = .error (.unknownOption 'x') := by
  intro args later
  have read : parse args = .ok { timeout := some 2.5, texts := ["first"] } :=
    parse_timeout (by decide +kernel) (by decide)
  have parted : Parted args later := .inr (.inl ⟨"-qf", rfl, by decide⟩)
  have second : parse later = .ok { settings := .skip, quiet := true, texts := ["second"] } := by
    rw [parse, more_of_dash (by decide) (by decide)]
    change more _ ["-e", "second"] = _
    rw [more_of_dash (by decide) (by decide)]
    change more _ [] = _
    rw [more]
    rfl
  have unknown : parse ["-dx"] = .error (.unknownOption 'x') := by
    rw [parse, more_of_dash (by decide) (by decide)]
    rfl
  have whole := (parse_append args).1 _ read (by decide) later parted
  refine ⟨read, by decide, parted, whole.trans ?_, unknown,
    (parse_append ["-dx"]).2.1 _ unknown (fun _ ↦ by simp) later⟩
  rw [second]
  rfl

end Arguments

end TextTags
