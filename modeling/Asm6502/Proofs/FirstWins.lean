import Asm6502.LabelTable
import Mathlib.Data.List.Induction

/-! A label table after any requests. Of several requests for one name the first is granted and the
others are refused, so a table is told by the names in the order in which they were first asked for,
each with its first label. -/
namespace Asm6502

theorem eraseDups_concat {α : Type} [BEq α] [LawfulBEq α] [DecidableEq α] (xs : List α) (x : α) :
    (xs ++ [x]).eraseDups = if x ∈ xs then xs.eraseDups else xs.eraseDups ++ [x] := by
  rw [List.eraseDups_append]
  split
  case isTrue member => simp [List.removeAll, member]
  case isFalse absent => simp [List.removeAll, absent, List.eraseDups_cons]

namespace LabelTable

/-- The table that requests leave, granted or refused. -/
def after (history : List Request) : LabelTable := history.foldl (fun t r => (t.add r).1) {}

def first? (history : List Request) (name : Text) : Option Label :=
  (history.map Request.label).find? fun l => l.name == name

def asked (history : List Request) : List Text :=
  (history.map fun r => r.label.name).eraseDups

/-- The numbers in the message about a name that is taken can be written. -/
def Tellable (r : Request) (first : Label) : Prop :=
  Text.writable first.line = true ∧ ∀ l, r.location = some l → Text.writable l.line = true

section Request

variable {t : LabelTable} {r : Request}

theorem add_of_absent (absent : t.find? r.label.name = none) :
    t.add r = (⟨t.labels.push r.label⟩, .ok r.label) := by
  simp [add, define, absent]

/-- A request for a name that is taken changes nothing. The refusal tells the line of the label
that has the name, if it can. -/
theorem add_of_present {first : Label} (present : t.find? r.label.name = some first) :
    (t.add r).1 = t ∧
      ((t.add r).2 =
          .error (.duplicate ⟨.duplicate r.label.name first.line, r.location, r.sourceLine⟩) ↔
        Tellable r first) ∧
      ((t.add r).2 = .error (.overflow .writing) ↔ ¬ Tellable r first) := by
  have tellable : Tellable r first ↔ ((Cause.duplicate r.label.name first.line).writable &&
      r.location.all fun l => Text.writable l.line) = true := by
    cases located : r.location <;> simp [Tellable, Cause.writable, located]
  by_cases told : Tellable r first
  · have made : Diagnostic.make (.duplicate r.label.name first.line) r.location r.sourceLine =
        .ok ⟨.duplicate r.label.name first.line, r.location, r.sourceLine⟩ :=
      if_pos (tellable.mp told)
    simp [add, define, present, made, told]
  · have made : Diagnostic.make (.duplicate r.label.name first.line) r.location r.sourceLine =
        .error .writing := if_neg (mt tellable.mpr told)
    simp [add, define, present, made, told]

theorem granted_iff : (t.add r).2 = .ok r.label ↔ t.find? r.label.name = none := by
  cases found : t.find? r.label.name with
  | none => simp [add_of_absent found]
  | some first =>
    obtain ⟨-, told, untold⟩ := add_of_present found
    by_cases short : Tellable r first
    · simp [told.mpr short]
    · simp [untold.mpr short]

theorem find?_add (t : LabelTable) (r : Request) (name : Text) :
    (t.add r).1.find? name =
      (t.find? name).or (if r.label.name = name then some r.label else none) := by
  cases found : t.find? r.label.name with
  | none =>
    have defined : t.define r.label = .ok ⟨t.labels.push r.label⟩ :=
      define_eq_ok_iff.mpr ⟨found, rfl⟩
    rw [add_of_absent found, find?_of_define defined]
    split
    case isTrue same => rw [← same, found, Option.none_or]
    case isFalse => rw [Option.or_none]
  | some first =>
    rw [(add_of_present found).1]
    split
    case isTrue same => rw [← same, found, Option.some_or]
    case isFalse => rw [Option.or_none]

theorem names_add (t : LabelTable) (r : Request) :
    (t.add r).1.toList.map Label.name =
      if r.label.name ∈ t.toList.map Label.name then t.toList.map Label.name
      else t.toList.map Label.name ++ [r.label.name] := by
  have present : r.label.name ∈ t.toList.map Label.name ↔ t.find? r.label.name ≠ none := by
    rw [find?_eq_find?_toList]
    simp
  cases found : t.find? r.label.name with
  | none =>
    rw [if_neg (by simp [present, found]), add_of_absent found]
    simp [toList]
  | some first =>
    rw [if_pos (by simp [present, found]), (add_of_present found).1]

end Request

theorem after_concat (history : List Request) (r : Request) :
    after (history ++ [r]) = ((after history).add r).1 := by
  simp [after]

theorem first?_concat (history : List Request) (r : Request) (name : Text) :
    first? (history ++ [r]) name =
      (first? history name).or (if r.label.name = name then some r.label else none) := by
  rw [first?, List.map_append, List.find?_append, ← first?, List.map_singleton,
    List.find?_singleton]
  simp

theorem asked_concat (history : List Request) (r : Request) :
    asked (history ++ [r]) =
      if r.label.name ∈ asked history then asked history else asked history ++ [r.label.name] := by
  simp [asked, eraseDups_concat]

theorem first?_eq_none_iff {history : List Request} {name : Text} :
    first? history name = none ↔ name ∉ asked history := by
  simp [asked, first?]

theorem exists_first {history : List Request} {name : Text} (h : name ∈ asked history) :
    ∃ first, first? history name = some first := by
  apply Option.ne_none_iff_exists'.mp
  intro none
  exact first?_eq_none_iff.mp none h

theorem name_of_first? {history : List Request} {name : Text} {first : Label}
    (h : first? history name = some first) : first.name = name := by
  simpa using List.find?_some h

theorem find?_after (history : List Request) (name : Text) :
    (after history).find? name = first? history name := by
  induction history using List.reverseRecOn with
  | nil => rfl
  | append_singleton history r ih => rw [after_concat, find?_add, ih, first?_concat]

theorem names_after (history : List Request) :
    (after history).toList.map Label.name = asked history := by
  induction history using List.reverseRecOn with
  | nil => rfl
  | append_singleton history r ih => rw [after_concat, names_add, ih, asked_concat]

theorem labels_after (history : List Request) :
    (after history).toList.map some = (asked history).map (first? history) := by
  induction history using List.reverseRecOn with
  | nil => rfl
  | append_singleton history r ih =>
    have earlier : (asked history).map (first? (history ++ [r])) =
        (asked history).map (first? history) := by
      apply List.map_congr_left
      intro name member
      obtain ⟨first, found⟩ := exists_first member
      rw [first?_concat, found, Option.some_or]
    rw [after_concat, asked_concat]
    by_cases member : r.label.name ∈ asked history
    · obtain ⟨first, found⟩ := exists_first member
      rw [if_pos member, earlier, ← ih, (add_of_present ((find?_after history _).trans found)).1]
    · have found : first? history r.label.name = none := first?_eq_none_iff.mpr member
      have last : first? (history ++ [r]) r.label.name = some r.label := by
        simp [first?_concat, found]
      rw [if_neg member, List.map_append, earlier, ← ih,
        add_of_absent ((find?_after history _).trans found)]
      simp [toList, last]

/-- Whatever was asked of a new table. The next request is granted exactly if its name is new. A
name is found with its first label, and the table lists the names in the order in which they first
came; those like a name are listed in that order too. A request for a name that is taken changes
nothing and is refused with the line of the first label, exactly if that can be written. -/
theorem first_wins (history : List Request) :
    let t := after history
    let names := (history.map fun r => r.label.name).eraseDups
    (∀ r : Request,
        ((t.add r).2 = .ok r.label ↔ ∀ q ∈ history, q.label.name ≠ r.label.name) ∧
        ∀ first, first? history r.label.name = some first →
          (t.add r).1 = t ∧
          ((t.add r).2 =
              .error (.duplicate ⟨.duplicate r.label.name first.line, r.location, r.sourceLine⟩) ↔
            Tellable r first) ∧
          ((t.add r).2 = .error (.overflow .writing) ↔ ¬ Tellable r first)) ∧
      (∀ name, t.find? name = first? history name) ∧
      t.toList.map Label.name = names ∧
      t.toList.map some = names.map (first? history) ∧
      t.symbols.map some =
        names.map (fun name => (first? history name).map fun l => (name, l.address)) ∧
      t.labels.size = names.length ∧
      ∀ (name : Text) (k : Nat), t.similar name k =
        (names.filter fun n => n ≠ name ∧ n.lower = name.lower).take k := by
  intro t names
  have find : ∀ name, t.find? name = first? history name := find?_after history
  have listed : t.toList.map Label.name = names := names_after history
  have labels : t.toList.map some = names.map (first? history) := labels_after history
  refine ⟨fun r => ⟨?_, fun first found => add_of_present ((find _).trans found)⟩, find, listed,
    labels, ?_, ?_, ?_⟩
  · rw [granted_iff, find, first?_eq_none_iff]
    simp [asked]
  · have named : ∀ name, (first? history name).map (fun l => (name, l.address)) =
        (first? history name).map fun l => (l.name, l.address) := by
      intro name
      apply Option.map_congr
      intro l found
      rw [name_of_first? found]
    calc t.symbols.map some
        = (t.toList.map some).map (Option.map fun l => (l.name, l.address)) := by simp [symbols]
      _ = names.map (fun name => (first? history name).map fun l => (name, l.address)) := by
        simp [labels, named]
  · rw [← listed]
    simp [toList]
  · intro name k
    have like : (fun n : Text => n.lower == name.lower && n != name) =
        fun n => decide (n ≠ name ∧ n.lower = name.lower) := by
      funext n
      rw [Bool.eq_iff_iff]
      simp [and_comm]
    simp [similar, before, listed, like]

/-- Two names that differ in case, and a second request for each of them. -/
theorem first_wins_two_cases :
    let history : List Request :=
      [{ label := ⟨['a'], 10, 1⟩ }, { label := ⟨['A'], 20, 2⟩ }, { label := ⟨['a'], 30, 3⟩ }]
    let r : Request := { label := ⟨['A'], 40, 4⟩, location := some ⟨['s'], 4⟩ }
    let t := after history
    first? history ['A'] = some ⟨['A'], 20, 2⟩ ∧ (t.add r).1 = t ∧
      (t.add r).2 = .error (.duplicate ⟨.duplicate ['A'] 2, some ⟨['s'], 4⟩, none⟩) ∧
      t.find? ['a'] = some ⟨['a'], 10, 1⟩ ∧ t.toList.map Label.name = [['a'], ['A']] ∧
      t.similar ['a'] 3 = [['A']] := by
  intro history r t
  have found : first? history ['A'] = some ⟨['A'], 20, 2⟩ := rfl
  obtain ⟨requests, find, listed, -, -, -, similar⟩ := first_wins history
  obtain ⟨same, told, -⟩ := (requests r).2 ⟨['A'], 20, 2⟩ found
  have tellable : Tellable r ⟨['A'], 20, 2⟩ := by
    refine ⟨by decide +kernel, ?_⟩
    rintro l ⟨⟩
    decide +kernel
  exact ⟨found, same, told.mpr tellable, find ['a'], listed,
    (similar ['a'] 3).trans (by decide +kernel)⟩

end LabelTable
end Asm6502
