import Mathlib.Data.Finset.Card
import TextTags.Proofs.Fill.Shift

/-!
# Calls of the cache that interleave

A call looks its text up. Where there is no entry it cuts the text, and stores it in a second step;
in between, others may have stored the same text. Whatever the interleaving, the cache comes to what
it would come to if the calls that store had been made one after another, each as a whole, and so
every text has one entry that all calls share.
-/

namespace TextTags

namespace Cache

variable {c : Cache} {text other : String} {shared : Shared}

/-- The texts that have an entry. -/
def texts (c : Cache) : List String := c.entries.map Prod.fst

/-- The cache after calls for some texts, one after another. -/
def after (c : Cache) (texts : List String) : Cache :=
  texts.foldl (fun c text ↦ (c.getOrParse text).2) c

private theorem find?_eq_none_iff : c.find? text = none ↔ text ∉ c.texts := by
  rw [find?, texts, List.lookup_eq_none_iff]
  constructor
  · rintro hno mem
    obtain ⟨entry, there, rfl⟩ := List.mem_map.1 mem
    simpa using hno entry there
  · intro absent entry there
    exact bne_iff_ne.2 fun same ↦ absent (same ▸ List.mem_map_of_mem there)

private theorem getOrParse_of_found (found : c.find? text = some shared) :
    c.getOrParse text = (shared, c) := by
  rw [getOrParse, found]

private theorem getOrParse_of_absent (absent : c.find? text = none) : c.getOrParse text =
    (⟨c.size, Parsed.ofText text⟩, ⟨(text, ⟨c.size, Parsed.ofText text⟩) :: c.entries⟩) := by
  rw [getOrParse, absent]
  simp only [insertIfAbsent, absent]

/-- Storing a text is as good as a whole call. -/
theorem insertIfAbsent_eq_getOrParse (c : Cache) (text : String) :
    c.insertIfAbsent text (Parsed.ofText text) = c.getOrParse text := by
  cases found : c.find? text with
  | none => rw [getOrParse, found]
  | some shared => rw [getOrParse_of_found found, insertIfAbsent, found]

private theorem find?_getOrParse_self (c : Cache) (text : String) :
    (c.getOrParse text).2.find? text = some (c.getOrParse text).1 := by
  cases found : c.find? text with
  | none =>
    rw [getOrParse_of_absent found, find?]
    exact List.lookup_cons_self
  | some shared =>
    rw [getOrParse_of_found found]
    exact found

/-- A call replaces and removes nothing. -/
theorem find?_getOrParse (found : c.find? other = some shared) (text : String) :
    (c.getOrParse text).2.find? other = some shared := by
  cases absent : c.find? text with
  | none =>
    have apart : (other == text) = false :=
      beq_eq_false_iff_ne.2 fun same ↦ by simp [same, absent] at found
    rw [getOrParse_of_absent absent, find?, List.lookup_cons, apart]
    exact found
  | some _ =>
    rw [getOrParse_of_found absent]
    exact found

private theorem texts_getOrParse (c : Cache) (text : String) :
    (c.getOrParse text).2.texts.toFinset = insert text c.texts.toFinset := by
  cases found : c.find? text with
  | none =>
    rw [getOrParse_of_absent found]
    exact List.toFinset_cons
  | some shared =>
    have mem : text ∈ c.texts := by
      by_contra absent
      rw [find?_eq_none_iff.2 absent] at found
      contradiction
    rw [getOrParse_of_found found, Finset.insert_eq_of_mem (List.mem_toFinset.2 mem)]

/-- Whether a cache holds for each text what the text is cut into, in one entry that is numbered by
when it was stored. -/
structure Sound (c : Cache) : Prop where
  faithful : c.Faithful
  texts : c.texts.Nodup
  serials : c.entries.map (·.2.serial) = (List.range c.size).reverse

namespace Sound

private theorem empty : Sound {} := ⟨faithful_empty, List.nodup_nil, rfl⟩

private theorem getOrParse (h : c.Sound) (text : String) : (c.getOrParse text).2.Sound := by
  have faithful := h.faithful.getOrParse text
  cases found : c.find? text with
  | none =>
    rw [getOrParse_of_absent found] at faithful ⊢
    refine ⟨faithful, List.nodup_cons.2 ⟨find?_eq_none_iff.1 found, h.texts⟩, ?_⟩
    change c.size :: c.entries.map (·.2.serial) = (List.range (c.size + 1)).reverse
    rw [h.serials, List.range_succ, List.reverse_append]
    rfl
  | some shared =>
    rw [getOrParse_of_found found]
    exact h

private theorem size_eq (h : c.Sound) : c.size = c.texts.toFinset.card := by
  rw [List.toFinset_card_of_nodup h.texts, Cache.texts, List.length_map, size]

/-- An entry belongs to one text only. -/
theorem text_eq (h : c.Sound) {other : String} {shared shared' : Shared}
    (found : c.find? text = some shared) (found' : c.find? other = some shared')
    (same : shared.serial = shared'.serial) : text = other := by
  have nodup : (c.entries.map (·.2.serial)).Nodup := by
    rw [h.serials]
    exact List.nodup_reverse.2 List.nodup_range
  exact congrArg Prod.fst (List.inj_on_of_nodup_map nodup (Registry.mem_of_lookup found)
    (Registry.mem_of_lookup found') same)

private theorem after (h : c.Sound) (texts : List String) : (c.after texts).Sound := by
  induction texts generalizing c with
  | nil => exact h
  | cons text rest ih => exact ih (h.getOrParse text)

end Sound

private theorem find?_after (found : c.find? text = some shared) (texts : List String) :
    (c.after texts).find? text = some shared := by
  induction texts generalizing c with
  | nil => exact found
  | cons other rest ih => exact ih (find?_getOrParse found other)

private theorem texts_after (c : Cache) (texts : List String) :
    (c.after texts).texts.toFinset = c.texts.toFinset ∪ texts.toFinset := by
  induction texts generalizing c with
  | nil => simp [after]
  | cons text rest ih =>
    have others := ih (c.getOrParse text).2
    rw [texts_getOrParse] at others
    rw [List.toFinset_cons, Finset.union_insert, ← Finset.insert_union]
    exact others

/-! ## Calls in two steps -/

/-- A call of the cache for a text. -/
inductive Call
  /-- It found no entry, and is still to store one. -/
  | missed (text : String)
  /-- It has ended with what it gives its caller. -/
  | returned (text : String) (entry : Option Shared)

/-- One step of a call. -/
inductive Access
  /-- A call that only looks up its text. -/
  | get (text : String)
  /-- A call that looks up its text, and is to store it if there is no entry. -/
  | look (text : String)
  /-- A call that found no entry cuts its text, and stores it unless there is an entry by now. -/
  | store (call : Nat)

/-- A cache and the calls made of it so far. -/
structure Traffic where
  cache : Cache := {}
  calls : List Call := []

/-- What a call is after looking up its text. -/
def Call.ofLookup (text : String) : Option Shared → Call
  | some shared => .returned text (some shared)
  | none => .missed text

/-- Whether the entry that a call has returned is in the cache. -/
def Call.Holds (c : Cache) : Call → Prop
  | .returned text (some shared) => c.find? text = some shared
  | _ => True

namespace Call

private theorem holds_returned (c : Cache) (text : String) :
    (returned text (c.find? text)).Holds c := by
  cases found : c.find? text with
  | none => trivial
  | some shared => exact found

private theorem holds_ofLookup (c : Cache) (text : String) :
    (ofLookup text (c.find? text)).Holds c := by
  cases found : c.find? text with
  | none => trivial
  | some shared => exact found

/-- What a call has returned stays in the cache. -/
theorem Holds.getOrParse {call : Call} {c : Cache} (h : call.Holds c) (text : String) :
    call.Holds (c.getOrParse text).2 := by
  cases call with
  | missed => trivial
  | returned other entry =>
    cases entry with
    | none => trivial
    | some shared => exact find?_getOrParse h text

end Call

namespace Traffic

/-- The traffic after a call that found no entry has stored one, and has ended. -/
def store? (t : Traffic) (i : Nat) : Option Traffic :=
  match t.calls[i]? with
  | some (.missed text) =>
    let (shared, cache) := t.cache.insertIfAbsent text (Parsed.ofText text)
    some { cache, calls := t.calls.set i (.returned text (some shared)) }
  | _ => none

/-- The traffic after a step, if the step can be taken. -/
def step? (t : Traffic) : Access → Option Traffic
  | .get text => some { t with calls := t.calls ++ [.returned text (t.cache.find? text)] }
  | .look text => some { t with calls := t.calls ++ [.ofLookup text (t.cache.find? text)] }
  | .store i => t.store? i

/-- The traffic after steps one after another, if all can be taken. -/
def run? (t : Traffic) : List Access → Option Traffic
  | [] => some t
  | a :: rest => do (← t.step? a).run? rest

/-- The text that a step stores. -/
def stores? (t : Traffic) : Access → Option String
  | .store i =>
    match t.calls[i]? with
    | some (.missed text) => some text
    | _ => none
  | _ => none

/-- The texts that the steps of a run store, one for each step that does. -/
def stored (t : Traffic) : List Access → List String
  | [] => []
  | a :: rest =>
    match t.step? a with
    | some t' => (t.stores? a).toList ++ t'.stored rest
    | none => []

variable {t t' : Traffic} {a : Access} {steps : List Access} {i : Nat} {text : String}

private theorem store?_of_missed (missed : t.calls[i]? = some (.missed text)) :
    t.store? i = some ⟨(t.cache.getOrParse text).2,
      t.calls.set i (.returned text (some (t.cache.getOrParse text).1))⟩ := by
  rw [store?, missed, ← insertIfAbsent_eq_getOrParse]

private theorem missed_of_store? (h : t.store? i = some t') :
    ∃ text, t.calls[i]? = some (.missed text) := by
  unfold store? at h
  split at h
  · next text missed => exact ⟨text, missed⟩
  · contradiction

/-- All that a step can do: it begins a call that tells what is in the cache, or it ends one like a
whole call. -/
theorem step?_cases (h : t.step? a = some t') :
    (∃ call, t.stores? a = none ∧ call.Holds t.cache ∧ t' = { t with calls := t.calls ++ [call] }) ∨
      ∃ i text, t.stores? a = some text ∧ t' = ⟨(t.cache.getOrParse text).2,
        t.calls.set i (.returned text (some (t.cache.getOrParse text).1))⟩ := by
  cases a with
  | get text => exact .inl ⟨_, rfl, Call.holds_returned .., (Option.some.inj h).symm⟩
  | look text => exact .inl ⟨_, rfl, Call.holds_ofLookup .., (Option.some.inj h).symm⟩
  | store i =>
    obtain ⟨text, missed⟩ := missed_of_store? h
    have stored := (store?_of_missed missed).symm.trans h
    exact .inr ⟨i, text, by rw [stores?, missed], (Option.some.inj stored).symm⟩

private theorem run?_cons (h : t.run? (a :: steps) = some t') :
    ∃ u, t.step? a = some u ∧ u.run? steps = some t' :=
  Option.bind_eq_some_iff.1 h

/-- However calls interleave, the cache comes to what it comes to when those that store are made one
after another. -/
theorem run?_cache (run : t.run? steps = some t') : t'.cache = t.cache.after (t.stored steps) := by
  induction steps generalizing t with
  | nil =>
    obtain rfl := Option.some.inj run
    rfl
  | cons a rest ih =>
    obtain ⟨u, first, last⟩ := run?_cons run
    rw [ih last, stored, first]
    -- Only a step that stores changes the cache, and it does so like a whole call.
    rcases step?_cases first with ⟨call, stores, -, rfl⟩ | ⟨i, text, stores, rfl⟩ <;>
    · rw [stores]
      rfl

/-! ## What calls return -/

private theorem holds_step (h : ∀ call ∈ t.calls, call.Holds t.cache) (step : t.step? a = some t') :
    ∀ call ∈ t'.calls, call.Holds t'.cache := by
  rcases step?_cases step with ⟨new, -, holds, rfl⟩ | ⟨i, text, -, rfl⟩
  · intro call mem
    rcases List.mem_append.1 mem with old | added
    · exact h call old
    · rwa [List.mem_singleton.1 added]
  · intro call mem
    rcases List.mem_or_eq_of_mem_set mem with old | rfl
    · exact (h call old).getOrParse text
    · exact t.cache.find?_getOrParse_self text

/-- All that calls have returned in a run is in the cache. -/
theorem holds_of_run? (h : ∀ call ∈ t.calls, call.Holds t.cache) (run : t.run? steps = some t') :
    ∀ call ∈ t'.calls, call.Holds t'.cache := by
  induction steps generalizing t with
  | nil =>
    obtain rfl := Option.some.inj run
    exact h
  | cons a rest ih =>
    obtain ⟨u, first, last⟩ := run?_cons run
    exact ih (holds_step h first) last

/-- What holds of a cache and its calls after steps from an empty one. -/
structure Coherent (steps : List Access) (t : Traffic) : Prop where
  /-- An entry that a call returns is what its text is cut into. -/
  cut : ∀ text shared, .returned text (some shared) ∈ t.calls →
    shared.parsed = Parsed.ofText text
  /-- Calls for one text return one entry. -/
  same : ∀ text shared shared', .returned text (some shared) ∈ t.calls →
    .returned text (some shared') ∈ t.calls → shared = shared'
  /-- Calls for different texts return different entries. -/
  own : ∀ text text' shared shared', .returned text (some shared) ∈ t.calls →
    .returned text' (some shared') ∈ t.calls → shared.serial = shared'.serial → text = text'
  /-- Whatever follows, an entry that was returned is not replaced or removed. -/
  stays : ∀ text shared, .returned text (some shared) ∈ t.calls → ∀ more t',
    t.run? more = some t' → t'.cache.find? text = some shared
  /-- A call that found no entry can return one. -/
  ends : ∀ i text, t.calls[i]? = some (.missed text) → ∃ t' shared,
    t.step? (.store i) = some t' ∧ t'.calls[i]? = some (.returned text (some shared))
  /-- There is an entry exactly for the texts that were stored. -/
  found : ∀ text, t.cache.find? text ≠ none ↔ text ∈ stored {} steps
  size : t.cache.size = (stored {} steps).toFinset.card
  /-- A text is filled with the same as with an empty cache. -/
  fills : ∀ (env : Env) levels text (w : World),
    (env.fillValue levels text).result { w with cache := t.cache } =
      (env.fillValue levels text).result { w with cache := {} }

/-- Whatever the calls from an empty cache and however their steps interleave, each text has one
entry that all its calls return and that stays, and filling does not notice the cache. -/
theorem run?_coherent (run : run? {} steps = some t) : Coherent steps t := by
  have cache : t.cache = after {} (stored {} steps) := run?_cache run
  have sound : t.cache.Sound := cache ▸ Sound.empty.after _
  have holds : ∀ call ∈ t.calls, call.Holds t.cache :=
    holds_of_run? (fun _ mem ↦ absurd mem List.not_mem_nil) run
  have texts : t.cache.texts.toFinset = (stored {} steps).toFinset := by
    rw [cache, texts_after]
    exact Finset.empty_union _
  exact {
    cut := fun text shared mem ↦ sound.faithful text shared (holds _ mem)
    same := fun text shared shared' mem mem' ↦
      Option.some.inj ((holds _ mem).symm.trans (holds _ mem'))
    own := fun text text' shared shared' mem mem' ↦ sound.text_eq (holds _ mem) (holds _ mem')
    stays := fun text shared mem more t' run' ↦ by
      rw [run?_cache run']
      exact find?_after (holds _ mem) _
    ends := fun i text missed ↦ ⟨_, _, store?_of_missed missed,
      List.getElem?_set_self (List.getElem?_eq_some_iff.1 missed).1⟩
    found := fun text ↦ by
      rw [ne_eq, find?_eq_none_iff, not_not, ← List.mem_toFinset, texts, List.mem_toFinset]
    size := by rw [sound.size_eq, texts]
    fills := fun env levels text w ↦
      (env.fillValue_steady levels text).result_eq sound.faithful faithful_empty }

/-- Two calls that miss the same text race to store it, and calls for it come before and after. -/
def racing : List Access :=
  [.get "<a>", .look "<a>", .look "<a>", .store 2, .store 1, .look "<a>", .look "<A>", .store 4]

/-- Calls that look for a text before either has stored it, and one for the text in other letter
case. -/
theorem run?_coherent_racing : ∃ t, run? {} racing = some t ∧ Coherent racing t ∧
    t.cache.size = 2 := by
  obtain ⟨t, run, size⟩ : ∃ t, run? {} racing = some t ∧ t.cache.size = 2 := ⟨_, rfl, rfl⟩
  exact ⟨t, run, run?_coherent run, size⟩

end Traffic

end Cache

end TextTags
