import Mathlib.Data.Set.Finite.List
import Mathlib.Logic.ExistsUnique
import TextTags.Host.Lookup
import TextTags.Proofs.Text.Bytes

/-!
# Lines of containers

The names that containers inherit lead from one container to the next. Whatever they are, the line
ends at the latest where all names that are inherited have come before; and since the names are
texts in a memory, there are finitely many.
-/

namespace TextTags

open Text

namespace Container

/-- The containers that a look-up meets from a name on, with the names that have come before in
lower case: the way ends where nothing is inherited, where a name has come before, and where no
container has the name. -/
inductive Inherits (look : String → Option Container) :
    List String → Option String → List Container → Prop
  | absent {seen} : Inherits look seen none []
  | repeated {seen name} : lower name ∈ seen → Inherits look seen (some name) []
  | missing {seen name} : lower name ∉ seen → look name = none →
      Inherits look seen (some name) []
  | link {seen name c farther} : lower name ∉ seen → look name = some c →
      Inherits look (lower name :: seen) c.inherit farther →
      Inherits look seen (some name) (c :: farther)

variable {look : String → Option Container}

/-- There is one way to go on. -/
theorem Inherits.unique {seen : List String} {next : Option String} {line line' : List Container}
    (h : Inherits look seen next line) (h' : Inherits look seen next line') : line = line' := by
  induction h generalizing line' with
  | absent =>
    cases h'
    rfl
  | repeated old =>
    cases h' with
    | repeated | missing => rfl
    | link new => exact absurd old new
  | missing new h =>
    cases h' with
    | repeated | missing => rfl
    | link new' found => exact nomatch h.symm.trans found
  | link new found farther ih =>
    cases h' with
    | repeated old => exact absurd old new
    | missing new' h => exact nomatch h.symm.trans found
    | link new' found' farther' =>
      obtain rfl := Option.some.inj (found.symm.trans found')
      rw [ih farther']

end Container

namespace Host

variable {h : Host}

/-- The line that is looked up leads along the names as they are inherited. -/
theorem inherits_lineageAfter (h : Host) (seen : List String) (name : String) :
    Container.Inherits h.container seen (some name) (h.lineageAfter seen name) := by
  fun_induction h.lineageAfter seen name with
  | case1 seen name old => exact .repeated old
  | case2 seen name new missing => exact .missing new missing
  | case3 seen name new c found last => exact .link new found (last ▸ .absent)
  | case4 seen name new c found parent next ih => exact .link new found (next ▸ ih)

/-- The line of a name is the one way along the names that are inherited. -/
theorem inherits_iff {name : String} {line : List Container} :
    Container.Inherits h.container [] (some name) line ↔ line = h.lineage name :=
  ⟨fun way ↦ way.unique (h.inherits_lineageAfter [] name),
    fun eq ↦ eq ▸ h.inherits_lineageAfter [] name⟩

/-- A host answers the same whatever it says about time limits. -/
theorem answer_timeBoxes (h : Host) (boxes : Context → Bool) :
    ({ h with timeBoxes := boxes } : Host).answer = h.answer := by
  have lineage (name : String) :
      ({ h with timeBoxes := boxes } : Host).lineage name = h.lineage name :=
    inherits_iff.1 (inherits_lineageAfter { h with timeBoxes := boxes } [] name)
  funext l
  cases l with
  | lineage name => exact lineage name
  | _ => rfl

end Host

/-! ## Services as hosts -/

/-- There are finitely many texts of fewer bytes than a bound. -/
theorem Text.finite_length_bytes_lt (bound : Nat) :
    {text : String | (bytes text).length < bound}.Finite := by
  have : Finite UInt8 := Finite.of_injective UInt8.toFin fun _ _ ↦ UInt8.toFin_inj.1
  refine (List.finite_length_lt UInt8 bound).preimage fun a _ b _ same ↦ ?_
  exact String.toByteArray_inj.1 (ByteArray.ext (Array.toList_inj.1 same))

/-- Whether the names that containers inherit are texts that a memory can hold: no text there has
`2 ^ 63` bytes or more. -/
def Services.Addressable (s : Services) : Prop :=
  ∀ name c parent, s.container name = some c → c.inherit = some parent →
    (bytes parent).length < 2 ^ 63

/-- The services of a program are those of a host. -/
theorem Services.exists_host {s : Services} (addressable : s.Addressable) :
    ∃ h : Host, h.toServices = s := by
  let names := (finite_length_bytes_lt (2 ^ 63)).image lower
  refine ⟨{ s with
    inherited := names.toFinset.toList
    lower_mem_inherited := fun {name parent c} found next ↦ ?_ }, rfl⟩
  rw [Finset.mem_toList, Set.Finite.mem_toFinset]
  exact Set.mem_image_of_mem lower (addressable name c parent found next)

end TextTags
