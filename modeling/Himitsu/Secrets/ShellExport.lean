import Himitsu.Library.PosixShell
import Himitsu.Secrets.DotenvRoundTrip

/-!
# What a shell makes of an exported file

* `lex_escapeQuotes` — between single quotes the shell reads back what the writer has escaped.
* `lex_shellLine` — the two words of one line.

Principal result: `shell_export_exact` — the shell runs one `export` for each entry, with exactly
the value of the entry.
-/

set_option autoImplicit false

namespace Himitsu.Secrets

open JsString PosixShell

/-! ## One line -/

/-- The words of the command for an entry. -/
def exportCommand (entry : JsString × JsString) : List Word :=
  [(ofAscii "export").map .literal, (entry.1 ++ 0x3D :: entry.2).map .literal]

/-- **A value in single quotes is read back.** -/
theorem lex_escapeQuotes (value : JsString) (word : Word) (rest : JsString) :
    lex (.single word) (escapeQuotes value ++ rest) =
      lex (.single (word ++ value.map .literal)) rest := by
  induction value generalizing word with
  | nil => simp [escapeQuotes]
  | cons c value ih =>
    rw [escapeQuotes]
    split
    · rename_i hquote
      subst hquote
      simp only [List.cons_append, List.nil_append]
      rw [lex_apostrophe, ih]
      simp
    · rename_i hquote
      simp only [List.cons_append, List.nil_append]
      rw [lex_single hquote, ih]
      simp

theorem isPlain_of_isIdentifierPart {c : UInt16} (h : isIdentifierPart c = true) :
    isPlain c = true ∧ c ≠ 0x3D ∧ c ≠ 0x23 := by
  have hne : ∀ d, isIdentifierPart d = false → c ≠ d := by
    rintro d hd rfl
    rw [h] at hd
    cases hd
  simp only [isPlain, isBlank, isOperator, isExpansion, isSubstitution, Bool.not_eq_true',
    Bool.or_eq_false_iff, beq_eq_false_iff_ne]
  and_intros <;> exact hne _ (by decide)

theorem isIdentifier_units {key : JsString} (h : isIdentifier key = true) :
    ∀ c ∈ key, isIdentifierPart c = true := by
  cases key with
  | nil => simp
  | cons c rest =>
    simp only [isIdentifier, Bool.and_eq_true, List.all_eq_true] at h
    intro d hd
    rcases List.mem_cons.mp hd with rfl | hd
    · simp [isIdentifierPart, h.1]
    · exact h.2 d hd

/-- The line that `shellLine` writes. -/
def shellText (entry : JsString × JsString) : JsString :=
  ofAscii "export " ++ entry.1 ++ 0x3D :: 0x27 :: escapeQuotes entry.2 ++ [0x27]

theorem shellLine_eq {entry : JsString × JsString} (h : isIdentifier entry.1 = true) :
    shellLine entry = .ok (shellText entry) := by
  rw [shellLine, exportableKey, if_pos h]
  rfl

/-- **One line.** The shell finds the two words of the command and the end of the line. -/
theorem lex_shellLine {entry : JsString × JsString} (h : isIdentifier entry.1 = true)
    (rest : JsString) :
    lex .blank (shellText entry ++ 0x0A :: rest) =
      (lex .blank rest).map ((exportCommand entry).map .word ++ .newline :: ·) := by
  have hunits := isIdentifier_units h
  have hkey : ∀ c ∈ entry.1 ++ [0x3D], isPlain c = true := by
    intro c hc
    rcases List.mem_append.mp hc with hc | hc
    · exact (isPlain_of_isIdentifierPart (hunits c hc)).1
    · rw [List.mem_singleton.mp hc]
      decide
  obtain ⟨first, more, hfirst⟩ : ∃ c rest, entry.1 = c :: rest := by
    cases hentry : entry.1 with
    | nil =>
      rw [hentry] at h
      cases h
    | cons c rest => exact ⟨c, rest, rfl⟩
  have hcommand : ∀ text, lex .blank (ofAscii "export " ++ text) =
      (lex .blank text).map (.word ((ofAscii "export").map .literal) :: ·) := by
    intro text
    have htext : ofAscii "export " ++ text = 0x65 :: ofAscii "xport" ++ 0x20 :: text := rfl
    have hexport : ofAscii "export" = 0x65 :: ofAscii "xport" := rfl
    have hplain : (0x65 :: ofAscii "xport").all isPlain = true := by decide
    rw [htext, lex_begin (by decide) (List.all_eq_true.mp hplain), lex_plain_blank rfl, hexport]
  have hoperand : ∀ text, lex .blank (entry.1 ++ 0x3D :: text) =
      lex (.plain ((entry.1 ++ [0x3D]).map .literal)) text := by
    intro text
    have hcomment := (isPlain_of_isIdentifierPart (hunits first (by simp [hfirst]))).2.2
    rw [hfirst, List.cons_append] at hkey ⊢
    have hword := lex_begin hcomment hkey text
    simpa using hword
  have hvalue : lex (.plain ((entry.1 ++ [0x3D]).map .literal))
      (0x27 :: (escapeQuotes entry.2 ++ 0x27 :: 0x0A :: rest)) =
      (lex .blank rest).map fun tokens =>
        .word ((entry.1 ++ 0x3D :: entry.2).map .literal) :: .newline :: tokens := by
    have hopen : ∀ word text, lex (.plain word) (0x27 :: text) = lex (.single word) text :=
      fun word text => map_nil_append _
    have hclose : ∀ word text, lex (.single word) (0x27 :: text) = lex (.plain word) text :=
      fun word text => map_nil_append _
    rw [hopen, lex_escapeQuotes, hclose, lex_plain_newline]
    simp
  have hline : shellText entry ++ 0x0A :: rest = ofAscii "export " ++ (entry.1 ++ 0x3D :: 0x27 ::
      (escapeQuotes entry.2 ++ 0x27 :: 0x0A :: rest)) := by
    simp [shellText]
  rw [hline, hcommand, hoperand, hvalue, Option.map_map]
  rfl

/-! ## The whole file -/

theorem exportOperand_exportCommand {entry : JsString × JsString}
    (h : isIdentifier entry.1 = true) : exportOperand (exportCommand entry) = some entry := by
  have hname : 0x3D ∉ entry.1 := fun hmem =>
    (isPlain_of_isIdentifierPart (isIdentifier_units h _ hmem)).2.1 rfl
  simp only [exportOperand, exportCommand, literalText_map, Option.bind_eq_bind, Option.bind_some,
    if_true, assignment_append hname]

/-- The commands of lines that were written one after another. -/
theorem commandsFrom_lines {entries : List (JsString × JsString)}
    (h : ∀ entry ∈ entries, isIdentifier entry.1 = true) :
    (lex .blank (unlines (entries.map shellText))).bind (commandsFrom []) =
      some (entries.map exportCommand) := by
  induction entries with
  | nil => rfl
  | cons entry entries ih =>
    have hrest := ih fun other hother => h other (List.mem_cons_of_mem _ hother)
    rw [List.map_cons, unlines_cons,
      lex_shellLine (h entry (List.mem_cons_self ..))]
    cases htokens : lex .blank (unlines (entries.map shellText)) with
    | none =>
      rw [htokens] at hrest
      cases hrest
    | some tokens =>
      rw [htokens, Option.bind_some] at hrest
      simp [exportCommand, commandsFrom, endLine, hrest]

theorem exportOperands {entries : List (JsString × JsString)}
    (h : ∀ entry ∈ entries, isIdentifier entry.1 = true) :
    (entries.map exportCommand).mapM exportOperand = some entries := by
  induction entries with
  | nil => rfl
  | cons entry entries ih =>
    have hentry := exportOperand_exportCommand (h entry (List.mem_cons_self ..))
    have hrest := ih fun other hother => h other (List.mem_cons_of_mem _ hother)
    rw [List.map_cons, List.mapM_cons, hentry, hrest]
    rfl

/-- **The shell runs one `export` for each entry of the record, with exactly its value.** -/
theorem shell_export_exact (localeCompare : LocaleCompare) (secrets : ExportableRecord)
    (options : ExportOptions) :
    ∃ text, serializeSecretExport localeCompare secrets.toSecretRecord .shell options = .ok text ∧
      (simpleCommands text).bind (·.mapM exportOperand) =
        some (sortedEntries localeCompare secrets.toSecretRecord) ∧
      (sortedEntries localeCompare secrets.toSecretRecord).Perm secrets.entries := by
  have hperm := sortedEntries_perm localeCompare secrets.toSecretRecord
  have hexportable : ∀ entry ∈ sortedEntries localeCompare secrets.toSecretRecord,
      isIdentifier entry.1 = true := fun entry hentry =>
    secrets.exportable entry (hperm.mem_iff.mp hentry)
  have hlines : (sortedEntries localeCompare secrets.toSecretRecord).mapM shellLine =
      .ok ((sortedEntries localeCompare secrets.toSecretRecord).map shellText) :=
    Except.mapM_eq_ok_of_forall fun entry hentry => shellLine_eq (hexportable entry hentry)
  refine ⟨unlines ((sortedEntries localeCompare secrets.toSecretRecord).map shellText), ?_, ?_,
    hperm⟩
  · simp only [serializeSecretExport, hlines, Functor.map, Except.map, joinLines_eq]
  · rw [simpleCommands, commandsFrom_lines hexportable, Option.bind_some]
    exact exportOperands hexportable

/-- A quote and a command, and a line end and an expansion. -/
def hostileRecord : ExportableRecord where
  entries := [(ofAscii "B", ofAscii "'; rm -r ."), (ofAscii "A", 0x0A :: ofAscii "$(id)")]
  nodup := by simp [ofAscii]
  exportable := by decide

theorem shell_export_exact_hostile :
    ∃ text, serializeSecretExport (fun _ _ => 0) hostileRecord.toSecretRecord .shell
        ⟨false, none⟩ = .ok text ∧
      text = ofAscii "export B=''\\''; rm -r .'\nexport A='\n$(id)'\n" ∧
      (simpleCommands text).bind (·.mapM exportOperand) = some hostileRecord.entries := by
  obtain ⟨text, htext, hcommands, -⟩ :=
    shell_export_exact (fun _ _ => 0) hostileRecord ⟨false, none⟩
  have hsorted : sortedEntries (fun _ _ => 0) hostileRecord.toSecretRecord =
      hostileRecord.entries := by decide
  rw [hsorted] at hcommands
  have hwritten : serializeSecretExport (fun _ _ => 0) hostileRecord.toSecretRecord .shell
      ⟨false, none⟩ = .ok (ofAscii "export B=''\\''; rm -r .'\nexport A='\n$(id)'\n") := by
    decide +kernel
  exact ⟨text, htext, Except.ok.inj (htext.symm.trans hwritten), hcommands⟩

end Himitsu.Secrets
