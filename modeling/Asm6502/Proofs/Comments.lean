import Asm6502.Proofs.LineShape
import Asm6502.Proofs.SourceLayout
import Mathlib.Data.List.DropRight

/-! What a raw line says, told without the scanner. It is the one text that has no blanks at its
ends and no semicolon but behind a backslash, and from which the line comes by indenting, padding
and a comment. So nothing is left to cut from it, and the lines of a source are those that say
something, under the numbers of their places. -/
namespace Asm6502

namespace Text

theorem trim_isPrefix (t : Text) : t.trim <+: t.trimLeft := List.rdropWhile_prefix isBlank _

theorem trimmed_trim (t : Text) : t.trim = [] ∨ t.trim.Trimmed := by
  by_cases empty : t.trim = []
  · exact .inl empty
  right
  constructor
  · obtain ⟨c, rest, split⟩ := List.exists_cons_of_ne_nil empty
    -- Cutting at the far end leaves the first character alone.
    obtain ⟨cut, whole⟩ := t.trim_isPrefix
    have head : c ∈ t.trimLeft.head? := by
      rw [← whole, split]
      rfl
    exact ⟨c, rest, split, ends_dropWhile isBlank t c head⟩
  · obtain ⟨rest, c, split⟩ := (List.eq_nil_or_concat t.trim).resolve_left empty
    rw [List.concat_eq_append] at split
    have last : c ∈ (t.trimLeft.reverse.dropWhile isBlank).head? := by
      have turned := congrArg List.reverse split
      simp only [trim, trimRight, List.reverse_reverse] at turned
      simp [turned]
    exact ⟨rest, c, split, ends_dropWhile isBlank _ c last⟩

theorem exists_blanks_around (t : Text) :
    ∃ left right : Text, (∀ c ∈ left, isBlank c = true) ∧ (∀ c ∈ right, isBlank c = true) ∧
      t = left ++ (t.trim ++ right) := by
  refine ⟨t.takeWhile isBlank, t.trimLeft.rtakeWhile isBlank, ?_, ?_, ?_⟩
  · intro c member
    exact List.mem_takeWhile_imp member
  · intro c member
    exact List.mem_takeWhile_imp (List.mem_reverse.mp member)
  · have behind : t.trim ++ t.trimLeft.rtakeWhile isBlank = t.trimLeft :=
      List.rdropWhile_append_rtakeWhile ..
    rw [behind]
    exact List.takeWhile_append_dropWhile.symm

end Text

namespace SourceLine

/-- Each semicolon stands right behind a backslash. -/
def Uncommented (t : Text) : Prop :=
  ∀ before after, t = before ++ ';' :: after → before.getLast? = some '\\'

/-- What stands before the comment of a text, if there is one. -/
structure Cut (t said : Text) : Prop where
  uncommented : Uncommented said
  behind : t = said ∨ ∃ comment, t = said ++ ';' :: comment ∧ said.getLast? ≠ some '\\'

section Comments

variable {t said left right : Text} {c : Char}

theorem uncommented_nil : Uncommented [] := by
  intro before after split
  simp at split

theorem Uncommented.concat (h : Uncommented t) (escaped : c = ';' → t.getLast? = some '\\') :
    Uncommented (t ++ [c]) := by
  intro before after split
  rcases List.eq_nil_or_concat after with rfl | ⟨rest, last, rfl⟩
  · obtain ⟨rfl, same⟩ := List.append_inj' split rfl
    exact escaped (List.singleton_inj.mp same)
  · have inside : t ++ [c] = (before ++ ';' :: rest) ++ [last] := by simpa using split
    exact h before rest (List.append_inj' inside rfl).1

/- The scanner keeps a text without a comment, and knows whether its last character was a
backslash. -/
theorem cut_cutCommentFrom (kept t : Text) (clean : Uncommented kept.reverse) :
    Cut (kept.reverse ++ t) (cutCommentFrom (kept.head? == some '\\') kept t) := by
  induction t generalizing kept with
  | nil =>
    rw [cutCommentFrom, List.append_nil]
    exact ⟨clean, .inl rfl⟩
  | cons c rest ih =>
    rw [cutCommentFrom]
    split
    · rename_i begins
      obtain ⟨rfl, unescaped⟩ := begins
      refine ⟨clean, .inr ⟨rest, rfl, ?_⟩⟩
      rw [List.getLast?_reverse]
      simpa using unescaped
    · rename_i goes
      have escaped : c = ';' → kept.reverse.getLast? = some '\\' := by
        intro semicolon
        simpa [semicolon] using goes
      have longer : Uncommented (c :: kept).reverse := by
        rw [List.reverse_cons]
        exact clean.concat escaped
      have step := ih (c :: kept) longer
      rw [List.reverse_cons, List.append_assoc] at step
      exact step

theorem cut_cutComment (t : Text) : Cut t (cutComment t) :=
  cut_cutCommentFrom [] t uncommented_nil

theorem Uncommented.cutComment_eq (h : Uncommented t) : cutComment t = t := by
  obtain whole | ⟨comment, split, unescaped⟩ := (cut_cutComment t).behind
  · exact whole.symm
  · exact absurd (h _ _ split) unescaped

/-- No semicolon loses its backslash when blanks are cut off before it, as a blank is none. -/
theorem Uncommented.inside (h : Uncommented (left ++ (said ++ right)))
    (blank : ∀ c ∈ left, Text.isBlank c = true) : Uncommented said := by
  rintro before after rfl
  have escaped := h (left ++ before) (after ++ right) (by simp)
  rcases List.eq_nil_or_concat before with rfl | ⟨rest, last, rfl⟩
  · rw [List.append_nil] at escaped
    have backslash := blank '\\' (List.mem_of_getLast? escaped)
    cases backslash
  · simpa [← List.append_assoc] using escaped

end Comments

section Content

variable {t said : Text}

theorem uncommented_content (t : Text) : Uncommented (content t) := by
  obtain ⟨left, right, blank, -, around⟩ := (cutComment t).exists_blanks_around
  exact (around ▸ (cut_cutComment t).uncommented).inside blank

theorem content_eq_self (trimmed : t = [] ∨ t.Trimmed) (clean : Uncommented t) :
    content t = t := by
  rw [content, clean.cutComment_eq]
  obtain rfl | trimmed := trimmed
  · rfl
  · exact trimmed.trim_eq

theorem dressed_content (t : Text) : Relation.ReflTransGen Dressed (content t) t := by
  obtain ⟨left, right, blank, blank', around⟩ := (cutComment t).exists_blanks_around
  have spaced : Relation.ReflTransGen Dressed (content t) (cutComment t) := by
    rw [around]
    exact .tail (.single (.padded _ right blank')) (.indented left _ blank)
  obtain whole | ⟨comment, split, unescaped⟩ := (cut_cutComment t).behind
  · rwa [← whole] at spaced
  · have commented := spaced.tail (.commented _ comment unescaped)
    rwa [← split] at commented

theorem content_of_dressed (h : Relation.ReflTransGen Dressed said t) :
    content t = content said := by
  induction h with
  | refl => rfl
  | tail _ step ih => exact step.content.trans ih

theorem content_eq_iff : content t = said ↔
    (said = [] ∨ said.Trimmed) ∧ Uncommented said ∧ Relation.ReflTransGen Dressed said t := by
  constructor
  · rintro rfl
    exact ⟨Text.trimmed_trim _, uncommented_content t, dressed_content t⟩
  · rintro ⟨trimmed, clean, dressed⟩
    exact (content_of_dressed dressed).trans (content_eq_self trimmed clean)

theorem content_unended (t : Text) :
    content (t.rdropWhile fun c => c = '\r' ∨ c = '\n') = content t := by
  have ending : ∀ c ∈ t.rtakeWhile (fun c => c = '\r' ∨ c = '\n'), Text.isBlank c = true := by
    intro c member
    have mark := List.mem_takeWhile_imp (List.mem_reverse.mp member)
    rcases of_decide_eq_true mark with rfl | rfl <;> decide
  have padded := content_pad ending (t.rdropWhile fun c => c = '\r' ∨ c = '\n')
  rw [List.rdropWhile_append_rtakeWhile] at padded
  exact padded.symm

end Content

theorem mem_ofRaw_iff {raw : List Text} {line : SourceLine} : line ∈ ofRaw raw ↔
    ∃ (i : Nat) (t : Text), raw[i]? = some t ∧ content t ≠ [] ∧ line = ⟨i + 1, content t⟩ := by
  unfold ofRaw
  rw [List.mem_filterMap]
  constructor
  · rintro ⟨⟨t, n⟩, member, kept⟩
    obtain ⟨counted, found⟩ := List.mk_mem_zipIdx_iff_le_and_getElem?_sub.mp member
    dsimp only at kept
    split at kept
    · cases kept
    · rename_i filled
      refine ⟨n - 1, t, found, fun nothing => filled (List.isEmpty_iff.mpr nothing), ?_⟩
      have place : ((n - 1 : Nat) : Int) + 1 = n := by omega
      rw [place]
      exact (Option.some.inj kept).symm
  · rintro ⟨i, t, found, filled, rfl⟩
    refine ⟨(t, i + 1), List.mk_mem_zipIdx_iff_le_and_getElem?_sub.mpr ⟨by omega, found⟩, ?_⟩
    have kept : ¬ (content t).isEmpty = true := fun nothing => filled (List.isEmpty_iff.mp nothing)
    exact if_neg kept

/-- Blanks around a line, its ending and its comment are all that is cut off, and once is enough.
The lines that say something keep their order and the numbers of their places. -/
theorem content_exact (t : Text) (raw : List Text) :
    (content t = [] ∨ (content t).Trimmed) ∧ Uncommented (content t) ∧
      content (content t) = content t ∧
      (t.getLast? ≠ some '\\' → ∀ comment, content (t ++ ';' :: comment) = content t) ∧
      content (t.rdropWhile fun c => c = '\r' ∨ c = '\n') = content t ∧
      (∀ said, content t = said ↔ (said = [] ∨ said.Trimmed) ∧ Uncommented said ∧
        Relation.ReflTransGen Dressed said t) ∧
      ((ofRaw raw).Pairwise fun a b => a.number < b.number) ∧
      ∀ line, line ∈ ofRaw raw ↔ ∃ (i : Nat) (r : Text),
        raw[i]? = some r ∧ content r ≠ [] ∧ line = ⟨i + 1, content r⟩ := by
  have trimmed := Text.trimmed_trim (cutComment t)
  have clean := uncommented_content t
  refine ⟨trimmed, clean, content_eq_self trimmed clean, ?_, content_unended t, ?_,
    pairwise_number_ofRaw raw, ?_⟩
  · intro last comment
    exact content_comment last comment
  · intro said
    exact content_eq_iff
  · intro line
    exact mem_ofRaw_iff

/-- A semicolon behind a backslash stays, and one behind a blank begins a comment, whatever the
backslash before the blank. -/
theorem content_exact_escaped :
    let t : Text := ['\t', 'a', '\\', ';', 'b', '\\', ' ']
    let raw : List Text := [[' ', ';', 'x'], t ++ [';', 'y', '\r', '\n'], ['\u3000'], ['\\', ';']]
    t.getLast? ≠ some '\\' ∧ content (t ++ ';' :: [' ', ';', 'z']) = content t ∧
      content t = ['a', '\\', ';', 'b', '\\'] ∧ Uncommented (content t) ∧
      content (content t) = content t ∧
      ((ofRaw raw).Pairwise fun a b => a.number < b.number) ∧
      ofRaw raw = [⟨2, content t⟩, ⟨4, ['\\', ';']⟩] := by
  intro t raw
  have last : t.getLast? ≠ some '\\' := by decide
  obtain ⟨-, clean, again, comment, -, -, rising, -⟩ := content_exact t raw
  exact ⟨last, comment last _, by decide, clean, again, rising, by decide⟩

end SourceLine

end Asm6502
