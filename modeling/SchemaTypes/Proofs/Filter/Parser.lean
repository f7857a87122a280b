import SchemaTypes.Filter.Parser
import SchemaTypes.Proofs.Filter.Eval

/-!
# Literals of filters

A literal that is read is a number, a text or a word, so the literals of a filter that is read have
distinct keys (`Filter.literalsDistinct_of_parse?`): an object in a filter is built when it runs.
-/

namespace SchemaTypes
namespace Filter

variable {f g : Filter} {fs : List Filter} {entries : List (Filter × Filter)}
  {fuel level : Nat} {tokens rest : List Token}

/-- Readers that take at most `fuel` steps read filters whose literals have distinct keys. -/
structure ReadsLiterals (fuel : Nat) : Prop where
  binary : ∀ {level tokens f rest}, readBinary level fuel tokens = some (f, rest) →
    f.LiteralsDistinct
  operators : ∀ {level first tokens f rest}, first.LiteralsDistinct →
    readOperators level fuel first tokens = some (f, rest) → f.LiteralsDistinct
  primary : ∀ {tokens f rest}, readPostfix fuel tokens = some (f, rest) → f.LiteralsDistinct
  steps : ∀ {first steps tokens f rest}, first.LiteralsDistinct →
    readSteps fuel first steps tokens = some (f, rest) → f.LiteralsDistinct
  atom : ∀ {tokens f rest}, readAtom fuel tokens = some (f, rest) → f.LiteralsDistinct
  arguments : ∀ {tokens fs rest}, readArguments fuel tokens = some (fs, rest) →
    ∀ f ∈ fs, f.LiteralsDistinct
  conditional : ∀ {tokens f rest}, readIf fuel tokens = some (f, rest) → f.LiteralsDistinct
  entries : ∀ {tokens entries rest}, readEntries fuel tokens = some (entries, rest) →
    EntriesDistinct entries
  entry : ∀ {tokens entry rest}, readEntry fuel tokens = some (entry, rest) →
    entry.2.LiteralsDistinct
  entryValue : ∀ {tokens f rest}, readEntryValue fuel tokens = some (f, rest) → f.LiteralsDistinct

/-- Without a step nothing is read. -/
theorem readsLiterals_zero : ReadsLiterals 0 where
  binary h := by rw [readBinary] at h; cases h
  operators _ h := by rw [readOperators] at h; cases h
  primary h := by rw [readPostfix] at h; cases h
  steps _ h := by rw [readSteps] at h; cases h
  atom h := by rw [readAtom] at h; cases h
  arguments h := by rw [readArguments] at h; cases h
  conditional h := by rw [readIf] at h; cases h
  entries h := by rw [readEntries] at h; cases h
  entry h := by rw [readEntry] at h; cases h
  entryValue h := by rw [readEntryValue] at h; cases h

/-- A name makes no literal but of a word. -/
theorem literalsDistinct_call {name : String} (h : ∀ f ∈ fs, f.LiteralsDistinct) :
    (call name fs).LiteralsDistinct := by
  unfold call
  split
  case h_11 f => exact h f (.head _)
  all_goals trivial

/-- An operator makes no literal. -/
theorem literalsDistinct_combine {operator : BinaryOperator} {token : Token}
    (h : BinaryOperator.ofToken? token = some operator) (hf : f.LiteralsDistinct)
    (hg : g.LiteralsDistinct) : (operator.combine f g).LiteralsDistinct := by
  unfold BinaryOperator.ofToken? at h
  split at h
  case h_15 => cases h
  case h_1 | h_2 | h_3 | h_12 | h_13 | h_14 =>
    cases h
    exact ⟨hf, hg⟩
  all_goals
    cases h
    trivial

/-- Steps make no literal. -/
theorem literalsDistinct_withSteps (hf : f.LiteralsDistinct)
    (steps : List (PathStep Filter × Bool)) : (withSteps f steps).LiteralsDistinct := by
  unfold withSteps
  split <;> exact hf

namespace ReadsLiterals

variable (ih : ReadsLiterals fuel)
include ih

theorem readBinary_succ (h : readBinary level (fuel + 1) tokens = some (f, rest)) :
    f.LiteralsDistinct := by
  rw [readBinary] at h
  obtain ⟨⟨first, after⟩, hfirst, h⟩ := Option.bind_eq_some_iff.1 h
  exact ih.operators (ih.primary hfirst) h

theorem readOperators_succ (hg : g.LiteralsDistinct)
    (h : readOperators level (fuel + 1) g tokens = some (f, rest)) : f.LiteralsDistinct := by
  cases tokens with
  | nil =>
    cases h
    exact hg
  | cons token tokens =>
    rw [readOperators] at h
    split at h
    · cases h
      exact hg
    · next operator hoperator =>
      split at h
      · cases h
        exact hg
      · obtain ⟨⟨second, after⟩, hsecond, h⟩ := Option.bind_eq_some_iff.1 h
        exact ih.operators (literalsDistinct_combine hoperator hg (ih.binary hsecond)) h

theorem readPostfix_succ (h : readPostfix (fuel + 1) tokens = some (f, rest)) :
    f.LiteralsDistinct := by
  rw [readPostfix] at h
  obtain ⟨⟨atom, after⟩, hatom, h⟩ := Option.bind_eq_some_iff.1 h
  exact ih.steps (ih.atom hatom) h

theorem readSteps_succ {steps : List (PathStep Filter × Bool)} (hg : g.LiteralsDistinct)
    (h : readSteps (fuel + 1) g steps tokens = some (f, rest)) : f.LiteralsDistinct := by
  rw [readSteps.eq_def] at h
  dsimp only at h
  split at h
  · split at h
    · have hquiet : (Filter.quiet g).LiteralsDistinct := hg
      exact ih.steps hquiet h
    · exact ih.steps hg h
  · exact ih.steps hg h
  · exact ih.steps hg h
  · obtain ⟨⟨step, after⟩, -, h⟩ := Option.bind_eq_some_iff.1 h
    exact ih.steps hg h
  · cases h
  · cases h
    exact literalsDistinct_withSteps hg steps

theorem readAtom_succ (h : readAtom (fuel + 1) tokens = some (f, rest)) :
    f.LiteralsDistinct := by
  rw [readAtom.eq_def] at h
  split at h
  case h_1 heq => cases heq
  case h_8 =>
    obtain ⟨⟨g, after⟩, -, h⟩ := Option.bind_eq_some_iff.1 h
    cases h
    trivial
  case h_9 heq | h_11 heq =>
    cases heq
    obtain ⟨⟨g, after⟩, hg, h⟩ := Option.bind_eq_some_iff.1 h
    obtain ⟨_, -, h⟩ := Option.bind_eq_some_iff.1 h
    have hdistinct := ih.binary hg
    cases h
    exact hdistinct
  case h_13 heq =>
    cases heq
    obtain ⟨⟨entries, after⟩, hentries, h⟩ := Option.bind_eq_some_iff.1 h
    cases h
    exact ih.entries hentries
  case h_14 heq =>
    cases heq
    exact ih.conditional h
  case h_15 heq =>
    cases heq
    split at h
    · cases h
    · split at h
      · obtain ⟨⟨fs, after⟩, hfs, h⟩ := Option.bind_eq_some_iff.1 h
        cases h
        exact literalsDistinct_call (ih.arguments hfs)
      · cases h
        exact literalsDistinct_call (List.forall_mem_nil _)
  all_goals
    cases h <;> trivial

theorem readArguments_succ (h : readArguments (fuel + 1) tokens = some (fs, rest)) :
    ∀ f ∈ fs, f.LiteralsDistinct := by
  rw [readArguments] at h
  obtain ⟨⟨g, after⟩, hg, h⟩ := Option.bind_eq_some_iff.1 h
  dsimp only at h
  split at h
  · cases h
    exact List.forall_mem_singleton.2 (ih.binary hg)
  · obtain ⟨⟨gs, after⟩, hgs, h⟩ := Option.bind_eq_some_iff.1 h
    cases h
    exact List.forall_mem_cons.2 ⟨ih.binary hg, ih.arguments hgs⟩
  · cases h

theorem readIf_succ (h : readIf (fuel + 1) tokens = some (f, rest)) : f.LiteralsDistinct := by
  rw [readIf] at h
  obtain ⟨⟨condition, after⟩, -, h⟩ := Option.bind_eq_some_iff.1 h
  obtain ⟨after, -, h⟩ := Option.bind_eq_some_iff.1 h
  obtain ⟨⟨thenDo, after⟩, hthen, h⟩ := Option.bind_eq_some_iff.1 h
  dsimp only at h
  split at h
  · obtain ⟨⟨elseDo, after⟩, helse, h⟩ := Option.bind_eq_some_iff.1 h
    cases h
    exact ⟨ih.binary hthen, ih.conditional helse⟩
  · obtain ⟨⟨elseDo, after⟩, helse, h⟩ := Option.bind_eq_some_iff.1 h
    obtain ⟨after, -, h⟩ := Option.bind_eq_some_iff.1 h
    cases h
    exact ⟨ih.binary hthen, ih.binary helse⟩
  · cases h
    exact ⟨ih.binary hthen, trivial⟩
  · cases h

theorem readEntries_succ (h : readEntries (fuel + 1) tokens = some (entries, rest)) :
    EntriesDistinct entries := by
  rw [readEntries] at h
  obtain ⟨⟨entry, after⟩, hentry, h⟩ := Option.bind_eq_some_iff.1 h
  dsimp only at h
  split at h
  · cases h
    exact ⟨ih.entry hentry, trivial⟩
  · cases h
    exact ⟨ih.entry hentry, trivial⟩
  · obtain ⟨⟨others, after⟩, hothers, h⟩ := Option.bind_eq_some_iff.1 h
    cases h
    exact ⟨ih.entry hentry, ih.entries hothers⟩
  · cases h

theorem readEntry_succ {entry : Filter × Filter}
    (h : readEntry (fuel + 1) tokens = some (entry, rest)) : entry.2.LiteralsDistinct := by
  rw [readEntry.eq_def] at h
  split at h
  case h_1 heq => cases heq
  case h_2 heq =>
    cases heq
    obtain ⟨⟨key, after⟩, -, h⟩ := Option.bind_eq_some_iff.1 h
    obtain ⟨after, -, h⟩ := Option.bind_eq_some_iff.1 h
    obtain ⟨after, -, h⟩ := Option.bind_eq_some_iff.1 h
    obtain ⟨⟨v, after⟩, hv, h⟩ := Option.bind_eq_some_iff.1 h
    cases h
    exact ih.entryValue hv
  case h_3 heq | h_4 heq | h_5 heq =>
    cases heq
    obtain ⟨⟨v, after⟩, hv, h⟩ := Option.bind_eq_some_iff.1 h
    cases h
    exact ih.entryValue hv
  all_goals
    cases h <;> trivial

theorem readEntryValue_succ (h : readEntryValue (fuel + 1) tokens = some (f, rest)) :
    f.LiteralsDistinct := by
  rw [readEntryValue] at h
  obtain ⟨⟨first, after⟩, hfirst, h⟩ := Option.bind_eq_some_iff.1 h
  dsimp only at h
  split at h
  · obtain ⟨⟨second, after⟩, hsecond, h⟩ := Option.bind_eq_some_iff.1 h
    cases h
    exact ⟨ih.binary hfirst, ih.entryValue hsecond⟩
  · cases h
    exact ih.binary hfirst

end ReadsLiterals

/-- Whatever a reader is called with, the literals of the filter that it reads have distinct
keys. -/
theorem readsLiterals (fuel : Nat) : ReadsLiterals fuel := by
  induction fuel with
  | zero => exact readsLiterals_zero
  | succ fuel ih =>
    exact ⟨ih.readBinary_succ, ih.readOperators_succ, ih.readPostfix_succ, ih.readSteps_succ,
      ih.readAtom_succ, ih.readArguments_succ, ih.readIf_succ, ih.readEntries_succ,
      ih.readEntry_succ, ih.readEntryValue_succ⟩

/-- The literals of a filter that is read have distinct keys. -/
theorem literalsDistinct_of_parse? {text : String} (h : parse? text = some f) :
    f.LiteralsDistinct := by
  obtain ⟨tokens, -, h⟩ := Option.bind_eq_some_iff.1 h
  split at h
  · cases h
  · split at h
    · next hread =>
      cases h
      exact (readsLiterals _).binary hread
    · cases h

end Filter
end SchemaTypes
