/-!
# The latest of a history

What each step of a history replaces or leaves is in the end what the latest step that replaced it
put there.
-/

namespace TextTags.History

variable {σ β α : Type} {step : σ → β → σ} {gives : β → Option α}

/-- What is looked up after a history is what its last step gives for it, or what was there before.
-/
theorem look_foldl (look : σ → Option α) {history : List β}
    (one : ∀ s, ∀ b ∈ history, look (step s b) = (gives b).or (look s)) (s : σ) :
    look (history.foldl step s) = (history.reverse.findSome? gives).or (look s) := by
  induction history generalizing s with
  | nil => rfl
  | cons b rest ih =>
    rw [List.foldl_cons, ih fun s b mem ↦ one s b (List.mem_cons_of_mem _ mem),
      one s b List.mem_cons_self, List.reverse_cons, List.findSome?_append,
      List.findSome?_singleton, Option.or_assoc]

/-- The same of what is always there. -/
theorem get_foldl (get : σ → α) {history : List β}
    (one : ∀ s, ∀ b ∈ history, get (step s b) = (gives b).getD (get s)) (s : σ) :
    get (history.foldl step s) = (history.reverse.findSome? gives).getD (get s) := by
  have all : ∀ s, ∀ b ∈ history, some (get (step s b)) = (gives b).or (some (get s)) := by
    intro s b mem
    rw [one s b mem]
    cases gives b <;> rfl
  have found := look_foldl (fun s ↦ some (get s)) all s
  rw [← Option.some_inj, found]
  cases history.reverse.findSome? gives <;> rfl

end TextTags.History
