import Asm6502.Proofs.Reassembly
import Asm6502.Proofs.Renumbering
import Mathlib.Logic.Function.Basic
import Mathlib.Logic.Relation

/-! Blank lines, indentation and comments are for the reader. Two sources that differ in nothing
else have the same lines under other numbers, and so they are assembled alike. -/
namespace Asm6502

namespace Text

section Blanks

variable {blanks t : Text}

theorem isBlank_of_isLineBreak {c : Char} (h : isLineBreak c = true) : isBlank c = true := by
  simp only [isLineBreak, isBlank, Bool.or_eq_true, Bool.and_eq_true, decide_eq_true_eq,
    beq_iff_eq] at h ⊢
  omega

theorem trimRight_append_blanks (h : ∀ c ∈ blanks, isBlank c = true) :
    trimRight (t ++ blanks) = trimRight t := by
  have reversed : ∀ c ∈ blanks.reverse, isBlank c = true := by simpa using h
  rw [trimRight, List.reverse_append, List.dropWhile_append_of_pos reversed, trimRight]

theorem trim_blanks_append (h : ∀ c ∈ blanks, isBlank c = true) : trim (blanks ++ t) = trim t := by
  rw [trim, trimLeft, List.dropWhile_append_of_pos h, trim, trimLeft]

theorem trim_append_blanks (h : ∀ c ∈ blanks, isBlank c = true) : trim (t ++ blanks) = trim t := by
  have gone : blanks.dropWhile isBlank = [] := List.dropWhile_eq_nil_iff.mpr h
  unfold trim trimLeft
  rw [List.dropWhile_append]
  split
  · rename_i nothing
    rw [gone, List.isEmpty_iff.mp nothing]
  · exact trimRight_append_blanks h

end Blanks

end Text

namespace SourceLine

section Content

variable {blanks t : Text}

theorem cutCommentFrom_kept (escaped : Bool) (kept t : Text) :
    cutCommentFrom escaped kept t = kept.reverse ++ cutCommentFrom escaped [] t := by
  induction t generalizing escaped kept with
  | nil => simp [cutCommentFrom]
  | cons c rest ih =>
    unfold cutCommentFrom
    split
    · simp
    · rw [ih _ (c :: kept), ih _ [c]]
      simp

theorem cutCommentFrom_cons (escaped : Bool) (c : Char) (rest : Text) :
    cutCommentFrom escaped [] (c :: rest) =
      if c = ';' ∧ escaped = false then []
      else c :: cutCommentFrom (c == '\\') [] rest := by
  rw [cutCommentFrom, cutCommentFrom_kept _ [c]]
  rfl

/- Either a comment begins in `t`, and what follows belongs to it, or none does, and all that `t`
leaves to what follows is whether its last character was a backslash. -/
theorem cutCommentFrom_append (escaped : Bool) (t : Text) :
    (∀ u, cutCommentFrom escaped [] (t ++ u) = cutCommentFrom escaped [] t) ∨
      ∀ u, cutCommentFrom escaped [] (t ++ u) =
        t ++ cutCommentFrom (t.foldl (fun _ c => c == '\\') escaped) [] u := by
  induction t generalizing escaped with
  | nil => exact .inr fun u => rfl
  | cons c rest ih =>
    simp only [List.cons_append, cutCommentFrom_cons, List.foldl_cons]
    by_cases begins : c = ';' ∧ escaped = false
    · left
      intro u
      rw [if_pos begins, if_pos begins]
    · simp only [if_neg begins]
      rcases ih (c == '\\') with inside | none
      · exact .inl fun u => congrArg _ (inside u)
      · exact .inr fun u => congrArg _ (none u)

theorem cutCommentFrom_blanks (h : ∀ c ∈ blanks, Text.isBlank c = true) (t : Text) :
    cutCommentFrom false [] (blanks ++ t) = blanks ++ cutCommentFrom false [] t := by
  induction blanks with
  | nil => rfl
  | cons c rest ih =>
    have blank := h c (by simp)
    have plain : ¬ (c = ';' ∧ false = false) := by
      rintro ⟨rfl, -⟩
      cases blank
    have unescaped : (c == '\\') = false := by
      rw [beq_eq_false_iff_ne]
      rintro rfl
      cases blank
    rw [List.cons_append, cutCommentFrom_cons, if_neg plain, unescaped,
      ih fun d hd => h d (List.mem_cons_of_mem _ hd)]
    rfl

theorem content_indent (h : ∀ c ∈ blanks, Text.isBlank c = true) (t : Text) :
    content (blanks ++ t) = content t := by
  rw [content, cutComment, cutCommentFrom_blanks h, Text.trim_blanks_append h]
  rfl

theorem content_pad (h : ∀ c ∈ blanks, Text.isBlank c = true) (t : Text) :
    content (t ++ blanks) = content t := by
  have visible : ∀ c ∈ blanks, c ≠ ';' := by
    rintro c hc rfl
    cases h _ hc
  rcases cutCommentFrom_append false t with inside | none
  · rw [content, cutComment, inside]
    rfl
  · have whole := none []
    rw [List.append_nil, cutCommentFrom, List.reverse_nil, List.append_nil] at whole
    rw [content, cutComment, none, cutCommentFrom_eq visible, List.reverse_nil, List.nil_append,
      Text.trim_append_blanks h, content, cutComment, whole]

theorem content_comment (h : t.getLast? ≠ some '\\') (comment : Text) :
    content (t ++ ';' :: comment) = content t := by
  have unescaped : t.foldl (fun _ c => c == '\\') false = false := by
    rcases List.eq_nil_or_concat t with rfl | ⟨rest, last, rfl⟩
    · rfl
    · have other : last ≠ '\\' := by simpa using h
      simpa using other
  have cut : content (t ++ ';' :: comment) = content (t ++ []) := by
    unfold content cutComment
    rcases cutCommentFrom_append false t with inside | none
    · rw [inside, inside]
    · rw [none, none, unescaped, cutCommentFrom_cons, if_pos ⟨rfl, rfl⟩]
      rfl
  rw [cut, List.append_nil]

end Content

/-- A line with nothing on it but blanks, or a comment behind them. -/
inductive Idle : Text → Prop where
  | blank (blanks : Text) : (∀ c ∈ blanks, Text.isBlank c = true) → Idle blanks
  | comment (blanks comment : Text) :
      (∀ c ∈ blanks, Text.isBlank c = true) → Idle (blanks ++ ';' :: comment)

inductive Dressed : Text → Text → Prop where
  | indented (blanks t : Text) : (∀ c ∈ blanks, Text.isBlank c = true) → Dressed t (blanks ++ t)
  | padded (t blanks : Text) : (∀ c ∈ blanks, Text.isBlank c = true) → Dressed t (t ++ blanks)
  | ended (t breaks : Text) : (∀ c ∈ breaks, Text.isLineBreak c = true) → Dressed t (t ++ breaks)
  | commented (t comment : Text) : t.getLast? ≠ some '\\' → Dressed t (t ++ ';' :: comment)

inductive LayoutStep : List Text → List Text → Prop where
  | insert (before after : List Text) {line : Text} :
      Idle line → LayoutStep (before ++ after) (before ++ line :: after)
  | dress (before after : List Text) {t t' : Text} :
      Dressed t t' → LayoutStep (before ++ t :: after) (before ++ t' :: after)

theorem Idle.content {line : Text} (h : Idle line) : content line = [] := by
  cases h with
  | blank _ blank =>
    have padded := content_pad blank []
    rwa [List.nil_append] at padded
  | comment blanks comment blank => exact content_indent blank _

theorem Dressed.content {t t' : Text} (h : Dressed t t') : content t' = content t := by
  cases h with
  | indented blanks t blank => exact content_indent blank t
  | padded t blanks blank => exact content_pad blank t
  | ended t breaks ends =>
    apply content_pad
    intro c hc
    exact Text.isBlank_of_isLineBreak (ends c hc)
  | commented t comment last => exact content_comment last comment

theorem map_text_ofRaw (raw : List Text) :
    (ofRaw raw).map text = (raw.map content).filter fun t => !t.isEmpty := by
  unfold ofRaw
  generalize 1 = n
  induction raw generalizing n with
  | nil => rfl
  | cons t rest ih =>
    rw [List.zipIdx_cons, List.filterMap_cons, List.map_cons, List.filter_cons]
    cases empty : (content t).isEmpty with
    | true => simpa [empty] using ih (n + 1)
    | false => simpa [empty] using ih (n + 1)

theorem LayoutStep.texts {raw raw' : List Text} (h : LayoutStep raw raw') :
    (ofRaw raw').map text = (ofRaw raw).map text := by
  rw [map_text_ofRaw, map_text_ofRaw]
  cases h with
  | insert before after idle => simp [idle.content]
  | dress before after dressed => simp only [List.map_append, List.map_cons, dressed.content]

theorem texts_of_layout {raw raw' : List Text} (h : Relation.EqvGen LayoutStep raw raw') :
    (ofRaw raw').map text = (ofRaw raw).map text := by
  induction h with
  | rel raw raw' step => exact step.texts
  | refl raw => rfl
  | symm raw raw' _ ih => exact ih.symm
  | trans raw raw' raw'' _ _ first second => exact second.trans first

theorem number_of_mem_ofRaw {raw : List Text} {line : SourceLine} (h : line ∈ ofRaw raw) :
    0 < line.number ∧ line.number ≤ raw.length := by
  obtain ⟨⟨t, n⟩, member, kept⟩ := List.mem_filterMap.mp h
  have range := List.mem_zipIdx member
  dsimp only at kept
  split at kept
  · cases kept
  · cases Option.some.inj kept
    dsimp only
    omega

theorem writable_of_short {raw : List Text} (short : raw.length < Text.digitBound) :
    ∀ line ∈ ofRaw raw, Text.writable line.number = true := by
  intro line member
  have range := number_of_mem_ofRaw member
  unfold Text.writable
  rw [decide_eq_true_eq]
  omega

/-- Lines that say the same are numbered by a rising function of the old numbers. -/
theorem exists_renumbering {xs ys : List SourceLine} (same : ys.map text = xs.map text)
    (rising : xs.Pairwise fun a b => a.number < b.number)
    (rising' : ys.Pairwise fun a b => a.number < b.number) :
    ∃ f : Int → Int, (∀ a ∈ xs, ∀ b ∈ xs, a.number < b.number → f a.number < f b.number) ∧
      ys = xs.map (renumber f) := by
  induction xs generalizing ys with
  | nil =>
    refine ⟨id, ?_, List.map_eq_nil_iff.mp same⟩
    intro a ha
    cases ha
  | cons x xs ih =>
    obtain ⟨y, ys, rfl, head, tail⟩ := List.map_eq_cons_iff.mp same
    obtain ⟨least, rest⟩ := List.pairwise_cons.mp rising
    obtain ⟨least', rest'⟩ := List.pairwise_cons.mp rising'
    obtain ⟨f, mono, rfl⟩ := ih tail rest rest'
    have later : ∀ line ∈ xs, Function.update f x.number y.number line.number = f line.number :=
      fun line member => Function.update_of_ne (Int.ne_of_gt (least line member)) _ _
    refine ⟨Function.update f x.number y.number, ?_, ?_⟩
    · intro a ha b hb lt
      rcases List.mem_cons.mp ha with rfl | behind
      · rcases List.mem_cons.mp hb with rfl | behind'
        · exact absurd lt (Int.lt_irrefl _)
        · rw [later b behind', Function.update_self]
          exact least' (b.renumber f) (List.mem_map_of_mem behind')
      · rcases List.mem_cons.mp hb with rfl | behind'
        · exact absurd lt (Int.not_lt.mpr (Int.le_of_lt (least a behind)))
        · rw [later a behind, later b behind']
          exact mono a behind b behind' lt
    · rw [List.map_cons]
      congr 1
      · obtain ⟨n, t⟩ := y
        simp only [renumber, Function.update_self]
        congr 1
      · apply List.map_congr_left
        intro line member
        simp only [renumber, later line member]

end SourceLine

namespace Assembler

open SourceLine

/-- The layout of a source is of no account: however a run ends, it ends so for the other layout
too, with the same image and the same labels and diagnostics, but for the numbers of the lines,
which follow those that the lines have now. A source has fewer lines than the least number that
cannot be written. -/
theorem layout_immaterial (s : Assembler) {raw raw' : List Text} (file : Text)
    (layout : Relation.EqvGen LayoutStep raw raw') (short : raw.length < Text.digitBound)
    (short' : raw'.length < Text.digitBound) :
    let r := s.assemble raw file
    let r' := s.assemble raw' file
    ∃ f : Int → Int,
      (∀ a ∈ ofRaw raw, ∀ b ∈ ofRaw raw, a.number < b.number → f a.number < f b.number) ∧
      ofRaw raw' = (ofRaw raw).map (renumber f) ∧ r'.2 = r.2 ∧ r'.1.code = r.1.code ∧
      r'.1.assembly.labels.toList = r.1.assembly.labels.toList.map (Label.renumber f) ∧
      r'.1.assembly.report.kept.toList =
        r.1.assembly.report.kept.toList.map (Diagnostic.renumber f) ∧
      r'.1.assembly.report.dropped = r.1.assembly.report.dropped := by
  intro r r'
  obtain ⟨f, mono, lines⟩ := exists_renumbering (texts_of_layout layout)
    (pairwise_number_ofRaw raw) (pairwise_number_ofRaw raw')
  obtain ⟨ended, code, table, report⟩ := assemble_renumbered s file lines
    (writable_of_short short) (writable_of_short short')
  refine ⟨f, mono, lines, ended, code, ?_, ?_, ?_⟩
  · rw [table, LabelTable.toList_map]
  · rw [report]
    exact Array.toList_map
  · rw [report]
    rfl

/-- A jump forward, a label that is repeated on a line with an unknown word, and a jump to nowhere;
then the same under a heading and an empty line, one line with a comment and one moved in and
ended. -/
theorem layout_immaterial_headed :
    let raw : List Text :=
      [['l', ':', 'J', 'M', 'P', ' ', 'e'], ['l', ':', 'f', 'o', 'o'], ['J', 'M', 'P', ' ', 'x'],
       ['e', ':']]
    let raw' : List Text :=
      [[';', 't', 'o', 'p'], [], ['l', ':', 'J', 'M', 'P', ' ', 'e', ';', 'g', 'o'],
       ['\t', 'l', ':', 'f', 'o', 'o', '\r', '\n'], ['J', 'M', 'P', ' ', 'x'], ['e', ':']]
    let r := (new {}).assemble raw []
    let r' := (new {}).assemble raw' []
    (∃ f : Int → Int, r'.2 = r.2 ∧ r'.1.code = r.1.code ∧
      r'.1.assembly.report.kept.toList =
        r.1.assembly.report.kept.toList.map (Diagnostic.renumber f)) ∧
      r.2 = none ∧ r.1.code.drop 12 = [0x4C, 0x13, 0x08, 0x4C, 0x00, 0x00] ∧
      r'.1.assembly.report.kept.toList.map (fun d => (d.line?, d.cause)) =
        [(some 4, .duplicate ['l'] 3), (some 5, .undefined ['x'] [] none)] := by
  intro raw raw' r r'
  have layout : Relation.EqvGen LayoutStep raw raw' :=
    .trans _ _ _ (.rel _ _ (.insert [] raw (.comment [] ['t', 'o', 'p'] (by simp)))) <|
    .trans _ _ _ (.rel _ _ (.insert [[';', 't', 'o', 'p']] raw (.blank [] (by simp)))) <|
    .trans _ _ _ (.rel _ _ (.dress [[';', 't', 'o', 'p'], []] raw.tail
      (.commented _ ['g', 'o'] (by decide)))) <|
    .trans _ _ _ (.rel _ _ (.dress (raw'.take 3) (raw.drop 2)
      (.indented ['\t'] _ (List.all_eq_true.mp rfl)))) <|
    .rel _ _ (.dress (raw'.take 3) (raw.drop 2) (.ended _ ['\r', '\n'] (List.all_eq_true.mp rfl)))
  have short : raw.length < Text.digitBound := (Text.writable_natCast _).mp (by decide +kernel)
  have short' : raw'.length < Text.digitBound := (Text.writable_natCast _).mp (by decide +kernel)
  obtain ⟨f, -, -, ended, code, -, kept, -⟩ := layout_immaterial (new {}) [] layout short short'
  exact ⟨⟨f, ended, code, kept⟩, by decide +kernel⟩

end Assembler

end Asm6502
