import Celeritas.Config.Parse

/-!
# Lines and pieces of lines

The loop calls what `fgets` stores a line, and counts it as one; a line that does not fit
its buffer is several. What that does to a file is decided line by line (`byLines_iff`),
because a line that is not skipped has a piece that is not skipped: the one with its first
character. So if the loop does as much for the file as it should, it does as much for every
line of it, and no doings of one line can make up for those of another.
-/

set_option autoImplicit false

namespace Celeritas

open CLib

/-! ## What the loop does, in order -/

inductive Doing
  | assign (a : Assignment)
  | report (lineNum : ℕ)
  deriving DecidableEq

def LineAct.doing (lineNum : ℕ) : LineAct → Option Doing
  | .skip => none
  | .assign a => some (.assign a)
  | .report _ => some (.report lineNum)

/-- The rule of the loop, over the lines in order. -/
def doings (lineNum : ℕ) : List Bytes → List Doing
  | [] => []
  | line :: lines =>
    ((configLine line).doing (lineNum + 1)).toList ++ doings (lineNum + 1) lines

/-- The first run ends with the first report. -/
def untilReport : List Doing → List Doing
  | [] => []
  | .assign a :: ds => .assign a :: untilReport ds
  | .report n :: _ => [.report n]

def outcome (isFirstRun : Bool) (lines : List Bytes) : List Doing :=
  if isFirstRun then untilReport (doings 0 lines) else doings 0 lines

/-- The configuration and the reported lines that a list of doings amounts to, or the line
that the process exits at. -/
def perform (isFirstRun : Bool) (conf : ConfigData) (reported : List ℕ) :
    List Doing → Except ℕ (ConfigData × List ℕ)
  | [] => .ok (conf, reported)
  | .assign a :: ds => perform isFirstRun (conf.assign a) reported ds
  | .report n :: ds =>
    if isFirstRun then .error n else perform isFirstRun conf (reported ++ [n]) ds

/-- The line an error is reported for. -/
def CfgError.lineNum : CfgError → ℕ
  | .cannotOpen _ _ => 0
  | .line n _ => n

/-- What the loop leaves behind, of the errors only the line numbers. -/
def observe : Except CfgError (ConfigData × List CfgError) → Except ℕ (ConfigData × List ℕ)
  | .ok (conf, log) => .ok (conf, log.map CfgError.lineNum)
  | .error e => .error e.lineNum

theorem observe_readLoop (isFirstRun : Bool) (lines : List Bytes) (n : ℕ) (conf : ConfigData)
    (log : List CfgError) : observe (readLoop isFirstRun n conf log lines) =
      perform isFirstRun conf (log.map CfgError.lineNum) (doings n lines) := by
  induction lines generalizing n conf log with
  | nil => rfl
  | cons line lines ih =>
    rw [readLoop, doings]
    cases configLine line with
    | skip => exact ih _ _ _
    | assign a => exact ih _ _ _
    | report e =>
      cases isFirstRun with
      | true => rfl
      | false =>
        show observe (readLoop false (n + 1) conf (log ++ [.line (n + 1) e]) lines) = _
        rw [ih, List.map_append]
        rfl

theorem perform_untilReport (conf : ConfigData) (reported : List ℕ) (ds : List Doing) :
    perform true conf reported (untilReport ds) = perform true conf reported ds := by
  induction ds generalizing conf with
  | nil => rfl
  | cons d ds ih =>
    cases d with
    | assign a => exact ih _
    | report n => rfl

/-- **The read loop does what its outcome says**, at startup and on a reload. -/
theorem observe_readLoop_outcome (isFirstRun : Bool) (conf : ConfigData) (lines : List Bytes) :
    observe (readLoop isFirstRun 0 conf [] lines) =
      perform isFirstRun conf [] (outcome isFirstRun lines) := by
  rw [observe_readLoop, List.map_nil]
  cases isFirstRun with
  | true => exact (perform_untilReport conf [] _).symm
  | false => rfl

theorem doings_append (n : ℕ) (a b : List Bytes) :
    doings n (a ++ b) = doings n a ++ doings (n + a.length) b := by
  induction a generalizing n with
  | nil => rfl
  | cons line a ih =>
    rw [List.cons_append, doings, doings, ih, List.append_assoc, List.length_cons]
    rw [show n + 1 + a.length = n + (a.length + 1) by omega]

/-! ## Skipped lines -/

/-- A blank that does not end the line. -/
def isBlank (c : UInt8) : Bool := isSpace c && (c != carriageReturn && c != newline)

/-- Nothing is to be done for a line that starts with one of these after its blanks. -/
def endsLine (c : UInt8) : Bool :=
  c == 0 || c == carriageReturn || c == newline || c == charByte '#'

theorem isBlank_of_isSpace {c : UInt8} (h : isSpace c = true) (hc : c ≠ carriageReturn)
    (hn : c ≠ newline) : isBlank c = true := by
  simp [isBlank, h, hc, hn]

theorem trimWhitespace_head (str : Bytes) :
    (trimWhitespace str).head? = (str.dropWhile isSpace).head? := by
  unfold trimWhitespace
  cases h : str.dropWhile isSpace with
  | nil => simp
  | cons c cs =>
    have hc : isSpace c = false := by
      have := List.head?_dropWhile_not isSpace str
      rw [h] at this
      simpa using this
    -- a character that is no blank is not trimmed from the other end
    obtain ⟨t, ht⟩ := List.rdropWhile_prefix isSpace (c :: cs)
    cases hr : (c :: cs).rdropWhile isSpace with
    | nil =>
      rw [List.rdropWhile_eq_nil_iff] at hr
      exact absurd (hr c List.mem_cons_self) (by simp [hc])
    | cons d ds =>
      rw [hr, List.cons_append, List.cons.injEq] at ht
      rw [ht.1]
      rfl

theorem parseValue_ne_skip (m : ConfigMapping) (key value : Bytes) :
    parseValue m key value ≠ .skip := by
  unfold parseValue
  cases m.field with
  | string f => dsimp only; split <;> simp
  | uint16 f => dsimp only; split <;> simp
  | bool f =>
    dsimp only
    split
    · simp
    · split <;> simp

theorem settingLine_ne_skip (trimmed : Bytes) : settingLine trimmed ≠ .skip := by
  unfold settingLine
  split
  · simp
  split
  · simp
  · exact parseValue_ne_skip _ _ _

theorem configLine_eq_skip_iff_head {line : Bytes} : configLine line = .skip ↔
    ∀ c ∈ (trimmedLine line).head?, c = charByte '#' := by
  unfold configLine
  split
  · rename_i h
    simp [h]
  · rename_i c cs h
    rw [h]
    by_cases hc : c = charByte '#'
    · simp [hc]
    · simp [hc, settingLine_ne_skip]

/-- **A line is skipped** if nothing comes after its blanks, or a `#`, or its end. -/
theorem configLine_eq_skip {line : Bytes} : configLine line = .skip ↔
    ∀ c ∈ (line.dropWhile isBlank).head?, endsLine c = true := by
  rw [configLine_eq_skip_iff_head, trimmedLine, trimWhitespace_head]
  induction line with
  | nil => simp [strBefore, cstr]
  | cons c cs ih =>
    by_cases hend : c = 0 ∨ c = carriageReturn ∨ c = newline
    · have hb : isBlank c = false := by
        rcases hend with rfl | rfl | rfl <;> decide
      have he : endsLine c = true := by
        rcases hend with rfl | rfl | rfl <;> decide
      have hs : strBefore [carriageReturn, newline] (c :: cs) = [] := by
        rw [strBefore_cons, if_pos (by simpa using hend)]
      simp [hs, hb, he]
    · have hs : strBefore [carriageReturn, newline] (c :: cs) =
          c :: strBefore [carriageReturn, newline] cs := by
        rw [strBefore_cons, if_neg (by simpa using hend)]
      simp only [not_or] at hend
      rw [hs, List.dropWhile_cons, List.dropWhile_cons]
      by_cases hspace : isSpace c = true
      · rw [if_pos hspace, if_pos (isBlank_of_isSpace hspace hend.2.1 hend.2.2)]
        exact ih
      · rw [if_neg hspace, if_neg (by simp [isBlank, hspace])]
        simp [endsLine, hend]

/-! ## The pieces of one line -/

def pieces (line : Bytes) : List Bytes := fgetsAll lineSize lineSize line

/-- A character after blanks is, in the piece it is in, a character after blanks. -/
theorem exists_piece {ps : List Bytes} {b rest : Bytes} {c : UInt8}
    (h : ps.flatten = b ++ c :: rest) : ∃ p ∈ ps, ∃ b' rest', p = b' ++ c :: rest' ∧ b' ⊆ b := by
  induction ps generalizing b with
  | nil => simp at h
  | cons p ps ih =>
    rw [List.flatten_cons, List.append_eq_append_iff] at h
    rcases h with ⟨b₂, hb, hps⟩ | ⟨r, hp, hr⟩
    · -- the piece ends among the blanks
      obtain ⟨q, hq, b', rest', hqe, hsub⟩ := ih hps
      refine ⟨q, List.mem_cons_of_mem _ hq, b', rest', hqe, ?_⟩
      rw [hb]
      exact List.Subset.trans hsub (List.subset_append_right _ _)
    · cases r with
      | nil =>
        rw [List.nil_append] at hr
        obtain ⟨q, hq, b', rest', hqe, hsub⟩ := ih (b := []) hr.symm
        exact ⟨q, List.mem_cons_of_mem _ hq, b', rest', hqe,
          List.Subset.trans hsub (List.nil_subset _)⟩
      | cons d r =>
        obtain ⟨rfl, -⟩ := List.cons.inj hr
        exact ⟨p, List.mem_cons_self, b, r, hp, List.Subset.refl _⟩

/-- **A line whose pieces are all skipped is skipped.** -/
theorem configLine_eq_skip_of_pieces {line : Bytes}
    (h : ∀ p ∈ pieces line, configLine p = .skip) : configLine line = .skip := by
  rw [configLine_eq_skip]
  intro c hc
  have hne : line.dropWhile isBlank ≠ [] := by
    intro hnil
    rw [hnil] at hc
    cases hc
  obtain ⟨d, rest, hd⟩ := List.exists_cons_of_ne_nil hne
  rw [hd, List.head?_cons, Option.mem_some_iff] at hc
  subst hc
  have hline : (pieces line).flatten = line.takeWhile isBlank ++ d :: rest := by
    rw [pieces, fgetsAll_flatten, ← hd, List.takeWhile_append_dropWhile]
  obtain ⟨p, hp, b, rest', rfl, hsub⟩ := exists_piece hline
  have hb : ∀ x ∈ b, isBlank x = true := fun x hx => List.mem_takeWhile_imp (hsub hx)
  have hdb : isBlank d = false := by
    have := List.head?_dropWhile_not isBlank line
    rw [hd] at this
    simpa using this
  apply configLine_eq_skip.mp (h _ hp) d
  rw [List.dropWhile_append_of_pos hb, List.dropWhile_cons, if_neg (by simp [hdb])]
  rfl

theorem doings_eq_nil {n : ℕ} {lines : List Bytes} :
    doings n lines = [] ↔ ∀ line ∈ lines, configLine line = .skip := by
  induction lines generalizing n with
  | nil => simp [doings]
  | cons line lines ih =>
    rw [doings, List.append_eq_nil_iff, ih, List.forall_mem_cons]
    apply and_congr_left'
    cases configLine line <;> simp [LineAct.doing]

/-- The pieces of a line do no less than the line. -/
theorem length_doing_le (line : Bytes) (m n : ℕ) :
    ((configLine line).doing n).toList.length ≤ (doings m (pieces line)).length := by
  have hle : ((configLine line).doing n).toList.length ≤ 1 := by
    cases (configLine line).doing n <;> simp
  cases hd : doings m (pieces line) with
  | nil =>
    rw [configLine_eq_skip_of_pieces (doings_eq_nil.mp hd)]
    exact Nat.le_refl 0
  | cons d ds => exact hle.trans (by simp)

/-- The loop does for the pieces of a line what it should for the line; `early` says that
every line before it is one piece. -/
def LineWhole (early : Prop) (line : Bytes) : Prop :=
  match configLine line with
  | .skip => ∀ p ∈ pieces line, configLine p = .skip
  | .assign a => ((pieces line).map configLine).filter (· ≠ .skip) = [.assign a]
  | .report _ => early ∧ ∃ p ps e, pieces line = p :: ps ∧ configLine p = .report e ∧
      ∀ q ∈ ps, configLine q = .skip

def LinesWhole : Prop → List Bytes → Prop
  | _, [] => True
  | early, line :: lines =>
    LineWhole early line ∧ LinesWhole (early ∧ (pieces line).length = 1) lines

theorem doings_eq_assign_iff {m : ℕ} {ps : List Bytes} {a : Assignment} :
    doings m ps = [.assign a] ↔ (ps.map configLine).filter (· ≠ .skip) = [.assign a] := by
  induction ps generalizing m with
  | nil => simp [doings]
  | cons p ps ih =>
    have hnil : doings (m + 1) ps = [] ↔ (ps.map configLine).filter (· ≠ .skip) = [] := by
      rw [doings_eq_nil, List.filter_eq_nil_iff]
      simp
    rw [doings, List.map_cons]
    cases hp : configLine p with
    | skip =>
      rw [List.filter_cons_of_neg (by simp)]
      exact ih
    | assign b =>
      rw [List.filter_cons_of_pos (by simp), List.cons.injEq, ← hnil]
      simp [LineAct.doing]
    | report e =>
      rw [List.filter_cons_of_pos (by simp)]
      simp [LineAct.doing]

theorem lt_of_mem_doings {m k : ℕ} {ps : List Bytes} (h : .report k ∈ doings m ps) : m < k := by
  induction ps generalizing m with
  | nil => cases h
  | cons p ps ih =>
    rcases List.mem_append.mp h with h | h
    · cases hp : configLine p with
      | skip => simp [hp, LineAct.doing] at h
      | assign a => simp [hp, LineAct.doing] at h
      | report e =>
        simp only [hp, LineAct.doing, Option.toList_some, List.mem_singleton,
          Doing.report.injEq] at h
        omega
    · have := ih h
      omega

/-- A report of line `n + 1` after `m` pieces, no fewer than the `n` lines before. -/
theorem doings_eq_report_iff {m n : ℕ} {ps : List Bytes} (hmn : n ≤ m) :
    doings m ps = [.report (n + 1)] ↔ m = n ∧ ∃ p ps' e, ps = p :: ps' ∧
      configLine p = .report e ∧ ∀ q ∈ ps', configLine q = .skip := by
  constructor
  · intro h
    cases ps with
    | nil => cases h
    | cons p ps =>
      rw [doings] at h
      cases hp : configLine p with
      | skip =>
        -- the report would have a greater number
        rw [hp] at h
        have hmem : .report (n + 1) ∈ doings (m + 1) ps := by
          rw [show doings (m + 1) ps = [.report (n + 1)] from h]
          exact List.mem_singleton_self _
        have := lt_of_mem_doings hmem
        omega
      | assign a => simp [hp, LineAct.doing] at h
      | report e =>
        rw [hp] at h
        simp only [LineAct.doing, Option.toList_some, List.cons_append, List.nil_append,
          List.cons.injEq, Doing.report.injEq] at h
        exact ⟨by omega, p, ps, e, rfl, hp, doings_eq_nil.mp h.2⟩
  · rintro ⟨rfl, p, ps', e, rfl, hp, hps⟩
    rw [doings, hp, doings_eq_nil.mpr hps]
    rfl

/-- What is required of a line, at the place it has in the file. -/
theorem doings_pieces_eq_iff {m n : ℕ} (hmn : n ≤ m) (line : Bytes) :
    doings m (pieces line) = ((configLine line).doing (n + 1)).toList ↔
      LineWhole (m = n) line := by
  unfold LineWhole
  cases configLine line with
  | skip => exact doings_eq_nil
  | assign a => exact doings_eq_assign_iff
  | report e => exact doings_eq_report_iff hmn

theorem pieces_ne_nil {line : Bytes} (h : line ≠ []) : pieces line ≠ [] := fgetsAll_ne_nil h

theorem ne_nil_of_mem_physicalLines {content line : Bytes} (h : line ∈ physicalLines content) :
    line ≠ [] := by
  induction content generalizing line with
  | nil => cases h
  | cons c cs ih =>
    rw [physicalLines] at h
    split at h
    · rcases List.mem_cons.mp h with rfl | h
      · exact List.cons_ne_nil _ _
      · exact ih h
    · split at h
      · rw [List.mem_singleton.mp h]
        exact List.cons_ne_nil _ _
      · rename_i hl
        rcases List.mem_cons.mp h with rfl | h
        · exact List.cons_ne_nil _ _
        · exact ih (hl ▸ List.mem_cons_of_mem _ h)

/-- The pieces of some lines do no less than the lines. -/
theorem length_doings_le (lines : List Bytes) (m n : ℕ) :
    (doings n lines).length ≤ (doings m (lines.flatMap pieces)).length := by
  induction lines generalizing m n with
  | nil => exact Nat.le_refl 0
  | cons line lines ih =>
    rw [doings, List.flatMap_cons, doings_append, List.length_append, List.length_append]
    exact Nat.add_le_add (length_doing_le line m (n + 1)) (ih _ _)

/-- **The loop does for the pieces what it should for the lines** if and only if it does so
line by line. -/
theorem doings_flatMap_eq_iff {lines : List Bytes} (hne : ∀ line ∈ lines, line ≠ []) {m n : ℕ}
    (hmn : n ≤ m) :
    doings m (lines.flatMap pieces) = doings n lines ↔ LinesWhole (m = n) lines := by
  induction lines generalizing m n with
  | nil => exact iff_of_true rfl trivial
  | cons line lines ih =>
    rw [List.forall_mem_cons] at hne
    have hpos : 0 < (pieces line).length := List.length_pos_iff.mpr (pieces_ne_nil hne.1)
    have hrest := ih hne.2 (m := m + (pieces line).length) (n := n + 1) (by omega)
    have hearly : (m + (pieces line).length = n + 1) ↔ (m = n ∧ (pieces line).length = 1) := by
      omega
    rw [hearly] at hrest
    rw [LinesWhole, ← doings_pieces_eq_iff hmn, ← hrest, doings, List.flatMap_cons, doings_append]
    constructor
    · intro h
      -- neither half does less, so both do the same
      have h₁ := length_doing_le line m (n + 1)
      have h₂ := length_doings_le lines (m + (pieces line).length) (n + 1)
      have hlen := congrArg List.length h
      rw [List.length_append, List.length_append] at hlen
      exact List.append_inj h (by omega)
    · rintro ⟨h₁, h₂⟩
      rw [h₁, h₂]

/-! ## The file -/

/-- The parser works on the lines of the file. -/
def ByLines (content : Bytes) : Prop :=
  ∀ isFirstRun, outcome isFirstRun (fgetsAll lineSize lineSize content) =
    outcome isFirstRun (physicalLines content)

/-- **The parser works on the lines of a file if and only if** every line of it is read as a
whole: of the pieces of a line that is skipped all are skipped; of those of a line that sets
something just one is not, and sets the same; and of those of a line that is reported the
first is reported, the others are skipped, and all lines before it are one piece each. -/
theorem byLines_iff (content : Bytes) :
    ByLines content ↔ LinesWhole True (physicalLines content) := by
  have hne : ∀ line ∈ physicalLines content, line ≠ [] := fun _ => ne_nil_of_mem_physicalLines
  have hdoings := doings_flatMap_eq_iff hne (Nat.le_refl 0)
  have hpieces : (physicalLines content).flatMap pieces = fgetsAll lineSize lineSize content :=
    (fgetsAll_eq_flatMap lineSize content).symm
  rw [eq_self, hpieces] at hdoings
  rw [← hdoings]
  constructor
  · intro h
    exact h false
  · intro h isFirstRun
    rw [outcome, outcome, h]

/-- Then the read loop leaves behind what the rule makes of the lines. -/
theorem ByLines.observe_readLoop {content : Bytes} (h : ByLines content) (isFirstRun : Bool)
    (conf : ConfigData) :
    observe (readLoop isFirstRun 0 conf [] (fgetsAll lineSize lineSize content)) =
      perform isFirstRun conf [] (outcome isFirstRun (physicalLines content)) := by
  rw [observe_readLoop_outcome, h isFirstRun]

theorem mem_physicalLines {content line : Bytes} (h : line ∈ physicalLines content) :
    newline ∉ line ∨ ∃ l, newline ∉ l ∧ line = l ++ [newline] := by
  induction hn : content.length using Nat.strong_induction_on generalizing content with
  | _ n ih =>
    rcases physicalLines_cases content with ⟨hnl, hl⟩ | ⟨l, rest, hnl, rfl, hl⟩
    · rw [hl] at h
      split at h
      · cases h
      · rw [List.mem_singleton.mp h]
        exact .inl hnl
    · rw [hl] at h
      rcases List.mem_cons.mp h with rfl | h
      · exact .inr ⟨l, hnl, rfl⟩
      · exact ih rest.length (by simp at hn; omega) h rfl

/-- A line that fits the buffer is one piece. -/
theorem pieces_eq_singleton {content line : Bytes} (h : line ∈ physicalLines content)
    (hfit : line.length < lineSize) : pieces line = [line] := by
  rcases mem_physicalLines h with hnl | ⟨l, hnl, rfl⟩
  · exact fgetsAll_eq_singleton hnl (ne_nil_of_mem_physicalLines h) hfit
  · rw [List.length_append, List.length_singleton] at hfit
    rw [pieces, fgetsAll_snoc_newline hnl (by omega) (by decide), if_pos hfit]

theorem lineWhole_of_singleton {line : Bytes} (h : pieces line = [line]) {early : Prop}
    (he : early) : LineWhole early line := by
  unfold LineWhole
  rw [h]
  split
  · simpa
  · rename_i a ha
    simp [ha]
  · rename_i e hr
    exact ⟨he, line, [], e, rfl, hr, by simp⟩

/-- So the parser works on the lines where none is longer than 1023 bytes. -/
theorem byLines_of_short {content : Bytes}
    (h : ∀ line ∈ physicalLines content, line.length < lineSize) : ByLines content := by
  rw [byLines_iff]
  have hp : ∀ line ∈ physicalLines content, pieces line = [line] :=
    fun line hl => pieces_eq_singleton hl (h line hl)
  generalize physicalLines content = lines at hp
  have hmain : ∀ (early : Prop), early → LinesWhole early lines := by
    induction lines with
    | nil => exact fun _ _ => trivial
    | cons line lines ih =>
      intro early he
      rw [List.forall_mem_cons] at hp
      exact ⟨lineWhole_of_singleton hp.1 he, ih hp.2 _ ⟨he, by rw [hp.1]; rfl⟩⟩
  exact hmain True trivial

/-! ## A long comment

A comment of 1023 bytes, and then what reads like a setting. -/

def longComment : Bytes :=
  charByte '#' :: List.replicate 1022 (charByte '-') ++ lit "doc_root = /\n"

/-- The line is skipped, but the server starts with the root directory as its document
root. -/
theorem longComment_sets :
    outcome true (physicalLines longComment) = [] ∧
      outcome true (fgetsAll lineSize lineSize longComment) = [.assign (.string .docRoot [47])] ∧
      ¬ ByLines longComment := by
  have hlines : outcome true (physicalLines longComment) = [] := by decide +kernel
  have hpieces : outcome true (fgetsAll lineSize lineSize longComment) =
      [.assign (.string .docRoot [47])] := by decide +kernel
  refine ⟨hlines, hpieces, ?_⟩
  intro h
  have := h true
  rw [hlines, hpieces] at this
  cases this

end Celeritas
