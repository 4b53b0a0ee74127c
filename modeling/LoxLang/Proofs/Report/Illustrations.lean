import LoxLang.Check
import LoxLang.Proofs.CommandLine.Breaks
import LoxLang.Proofs.Lexicon.Accounting
import LoxLang.Proofs.Parser.Naturality
import LoxLang.Proofs.Text.Rows

/-!
# Illustrations point at the complaint

Lines are counted twice: by the tokens, which count the line feeds before them, and by the
illustrations, which look for the row of a spot.  In a text in which no carriage return stands
without a line feed both come to the same number, for every issue of the tokens and of the
grammar.  The first caret stands below the character at the spot of the issue.
-/

namespace LoxLang

namespace Issue

/-- The issue points to this spot of the text, or to its end, and tells the line of the spot. -/
structure Marks (text : List Char) (issue : Issue) (spot : Nat) : Prop where
  points : issue.spot = some spot
  inside : spot ≤ text.length
  line : issue.line = 1 + (text.take spot).count '\n'
  wide : 1 ≤ issue.width

variable {text : String} {issue : Issue}

theorem Marks.ofLexeme (member : issue ∈ TokenStream.issuesOf text) :
    ∃ spot, issue.Marks text.toList spot := by
  obtain ⟨placed, inText, isIssue⟩ := List.mem_filterMap.1 member
  obtain ⟨error, _, rfl⟩ := Option.map_eq_some_iff.1 isIssue
  have stands := (PlacedLexeme.foundIn inText).standsAt
  exact ⟨placed.mark.spot, rfl, Nat.le_of_add_right_le stands.within, stands.line, Nat.le_refl 1⟩

theorem Marks.ofToken {token : Token} (member : token ∈ (TokenStream.ofText text).tokens)
    (message : String) : (atToken token message).Marks text.toList token.spot := by
  have stands := (token_stands member).2
  exact ⟨rfl, Nat.le_of_add_right_le stands.within, stands.line, Nat.le_max_right _ _⟩

theorem Marks.ofEnd (text message : String) :
    (atEnd (TokenStream.ofText text).stop message).Marks text.toList text.toList.length := by
  refine ⟨?_, Nat.le_refl _, ?_, Nat.le_refl 1⟩ <;>
    simp [atEnd, TokenStream.ofText, Mark.start, Mark.advance]

theorem Marks.ofComplaint {depth : Nat}
    (member : issue ∈ (parseWithin depth (TokenStream.ofText text).tokens).issues
      (TokenStream.ofText text).stop) :
    ∃ spot, issue.Marks text.toList spot := by
  obtain ⟨complaint, among, rfl⟩ := List.mem_map.1 member
  cases about : complaint.about with
  | none =>
      simp only [Complaint.toIssue, about]
      exact ⟨_, .ofEnd text _⟩
  | some token =>
      simp only [Complaint.toIssue, about]
      exact ⟨_, .ofToken (about_mem_of_complaint among about) _⟩

end Issue

namespace Illustration

/-- The illustration shows a row behind the margin with the row's number, and under it carets: the
first one in this column of the row, and at least one, but no more than the width. -/
structure Shows (shown : Illustration) (number : Nat) (row : List Char) (column width : Nat) :
    Prop where
  rowLine : shown.rowLine = margin number ++ Text.trimEnd row
  caretLine : ∃ indent count, shown.caretLine = indent ++ List.replicate count '^' ++ [' '] ∧
    indent.length = (margin number).length + column ∧ (∀ c ∈ indent, c = ' ' ∨ c = '\t') ∧
    1 ≤ count ∧ count ≤ width

/-- The illustration of the issue points at the spot of the issue: it shows the row of the text in
which the spot lies, whose number is the line of the issue. -/
def PointsAt (text : List Char) (issue : Issue) (shown : Illustration) : Prop :=
  ∃ spot row column, issue.spot = some spot ∧ spot ≤ text.length ∧
    Text.LiesIn text spot issue.line row column ∧ shown.Shows issue.line row column issue.width

theorem indentation_blank (chars : List Char) : ∀ c ∈ indentation chars, c = ' ' ∨ c = '\t' := by
  intro c member
  obtain ⟨original, _, rfl⟩ := List.mem_map.1 member
  split
  · exact .inr rfl
  · exact .inl rfl

theorem shows_locate {text : List Char} {spot width : Nat} (inside : spot ≤ text.length)
    (wide : 1 ≤ width) :
    (ofSpot text spot width).Shows (Text.locate text spot).row (Text.locate text spot).text
      (Text.locate text spot).column width := by
  have inRow := (Text.liesIn_locate text spot).column_le inside
  refine ⟨rfl, _, _, rfl, ?_, indentation_blank _, Nat.le_max_left _ _, ?_⟩
  · simp [indentation, ofSpot, Nat.min_eq_left inRow]
  · exact Nat.max_le.2 ⟨wide, Nat.min_le_left _ _⟩

theorem pointsAt_ofSpot {text : List Char} (paired : Text.ReturnsPaired text) {issue : Issue}
    {spot : Nat} (marks : issue.Marks text spot) :
    (ofSpot text spot issue.width).PointsAt text issue := by
  have isLine : (Text.locate text spot).row = issue.line :=
    (Text.row_locate paired spot).trans marks.line.symm
  have lies := Text.liesIn_locate text spot
  have shows := shows_locate marks.inside marks.wide
  rw [isLine] at lies shows
  exact ⟨spot, _, _, marks.points, marks.inside, lies, shows⟩

end Illustration

/-- Whether the message tells how far things have come. -/
def Message.isNote : Message → Bool
  | .note _ => true
  | .issue _ | .illustration _ | .runtimeError _ _ => false

namespace Report

/-- What is reported when a text is registered and read into tokens, and these into statements that
nest at most so deep. -/
def reading (report : Report) (text : String) (depth : Nat) : Report :=
  let read := (report.setSource text).scan text
  read.2.parse read.1 (parseWithin depth read.1.tokens)

variable {text : List Char} {before middle after : Report}

/-- Illustrations are shown of this text. -/
structure Showing (text : List Char) (report : Report) : Prop where
  verbose : report.verbose = true
  source : report.source = some text

/-- Between the two reports each new issue was said and, directly after it, an illustration that
points at it; nothing else was said but notes. -/
def Illustrates (text : List Char) (before after : Report) : Prop :=
  ∃ shown : List (Issue × Illustration), after.issues = before.issues ++ shown.map Prod.fst ∧
    after.transcript.filter (!·.isNote) = before.transcript.filter (!·.isNote) ++
      shown.flatMap (fun entry => [.issue entry.1, .illustration entry.2]) ∧
    ∀ entry ∈ shown, entry.2.PointsAt text entry.1

theorem Illustrates.trans (first : Illustrates text before middle)
    (second : Illustrates text middle after) : Illustrates text before after := by
  obtain ⟨shown, issues, said, point⟩ := first
  obtain ⟨further, laterIssues, saidLater, pointLater⟩ := second
  refine ⟨shown ++ further, ?_, ?_, List.forall_mem_append.2 ⟨point, pointLater⟩⟩
  · rw [laterIssues, issues, List.map_append, List.append_assoc]
  · rw [saidLater, said, List.flatMap_append, List.append_assoc]

theorem Illustrates.note (text : List Char) (report : Report) (words : String) :
    Illustrates text report (report.note words) := by
  refine ⟨[], ?_, ?_, by simp⟩ <;> unfold Report.note <;> split <;>
    simp [say, Message.isNote]

/-- The issue with its illustration. -/
def illustrated (text : List Char) (issue : Issue) : Issue × Illustration :=
  (issue, .ofSpot text (issue.spot.getD 0) issue.width)

theorem Illustrates.addIssues (showing : Showing text before) (paired : Text.ReturnsPaired text)
    {issues : List Issue} (mark : ∀ issue ∈ issues, ∃ spot, issue.Marks text spot) :
    Illustrates text before (before.addIssues issues) := by
  refine ⟨issues.map (illustrated text), ?_, ?_, ?_⟩
  · have same : (issues.map (illustrated text)).map Prod.fst = issues := by
      rw [List.map_map]
      exact List.map_id issues
    rw [same]
    rfl
  · have said : ∀ issue ∈ issues, (before.messagesOf issue).filter (!·.isNote) =
        [.issue issue, .illustration (illustrated text issue).2] := by
      intro issue member
      obtain ⟨spot, marks⟩ := mark issue member
      simp [messagesOf, illustrationOf, showing.verbose, showing.source, marks.points,
        Message.isNote, illustrated]
    simp only [Report.addIssues, say, List.filter_append, List.filter_flatMap, List.flatMap_map]
    rw [List.flatMap_congr said]
    rfl
  · refine List.forall_mem_map.2 fun issue member => ?_
    obtain ⟨spot, marks⟩ := mark issue member
    have points := Illustration.pointsAt_ofSpot paired marks
    simpa [illustrated, marks.points] using points

theorem Showing.addIssues (showing : Showing text before) (issues : List Issue) :
    Showing text (before.addIssues issues) := ⟨showing.verbose, showing.source⟩

theorem Showing.note (showing : Showing text before) (words : String) :
    Showing text (before.note words) := by
  unfold Report.note
  split
  · exact ⟨showing.verbose, showing.source⟩
  · exact showing

/-- What is wrong with the tokens is illustrated. -/
theorem Illustrates.scan {text : String} (showing : Showing text.toList before)
    (paired : Text.ReturnsPaired text.toList) :
    Illustrates text.toList before (before.scan text).2 :=
  (addIssues showing paired fun _ => Issue.Marks.ofLexeme).trans (note _ _ _)

/-- What is wrong with the grammar is illustrated, and so is that statements nest too deep. -/
theorem Illustrates.parse {text : String} (showing : Showing text.toList before)
    (paired : Text.ReturnsPaired text.toList) (depth : Nat) :
    Illustrates text.toList before (before.parse (TokenStream.ofText text)
      (parseWithin depth (TokenStream.ofText text).tokens)) := by
  have complaints := addIssues showing paired
    fun issue (member : issue ∈ (parseWithin depth (TokenStream.ofText text).tokens).issues
      (TokenStream.ofText text).stop) => Issue.Marks.ofComplaint member
  unfold Report.parse
  cases (parseWithin depth (TokenStream.ofText text).tokens).statements with
  | some statements => exact complaints.trans (note _ _ _)
  | none =>
      refine complaints.trans (addIssues (showing.addIssues _) paired ?_)
      exact List.forall_mem_singleton.2 ⟨_, .ofEnd text tooDeepMessage⟩

end Report

/-- Illustrations point at the complaint.  When a verbose report goes along as a text is read into
tokens and these into statements, and each carriage return of the text stands directly before a line
feed, then each issue is said together with an illustration.  The number of the row that it shows is
the line of the issue; its first caret stands in the column that the character at the spot of the
issue has in this row, or one past the row at the end of the text; and the carets are at least one and
no more than the issue is wide.  All texts are of this kind that the command reads, from a file or at
the prompt. -/
theorem illustrations_point_at_issues :
    (∀ (report : Report) (text : String) (depth : Nat), report.verbose = true →
      Text.ReturnsPaired text.toList →
        Report.Illustrates text.toList report (report.reading text depth)) ∧
    (∀ contents text, CommandLine.decode? contents = some text →
      Text.ReturnsPaired text.toList) ∧
    ∀ input, ∀ line ∈ CommandLine.inputLines input, Text.ReturnsPaired line.toList := by
  refine ⟨fun report text depth verbose paired => ?_, fun _ _ => CommandLine.paired_of_decode?,
    fun _ _ => CommandLine.paired_of_inputLines⟩
  have showing : Report.Showing text.toList (report.setSource text) := ⟨verbose, rfl⟩
  have showingScanned := (showing.addIssues (TokenStream.issuesOf text)).note
    ("Scanned " ++ toString (TokenStream.ofText text).size ++ " tokens")
  have scanned := Report.Illustrates.scan showing paired
  exact scanned.trans (Report.Illustrates.parse showingScanned paired depth)

/-- A string that is out of place goes on in the next row, where no carets follow; a stray
character, found before it, stands behind a tab; and the text ends too early.  The command reads such
texts with other line breaks. -/
theorem illustrations_point_at_issues_overRows :
    let text := "1 \"a\r\nb\";\n\t#\nvar"
    let report := (Report.fresh true).reading text 20
    Text.ReturnsPaired text.toList ∧ Report.Illustrates text.toList (Report.fresh true) report ∧
      report.issues.map Issue.line = [3, 1, 4] ∧
      (report.transcript.filterMap fun message =>
        match message with
        | .illustration shown => some shown.text
        | _ => none) =
          ["     3 |\t#\n        \t^ ", "     1 |1 \"a\n          ^^^^ ",
            "     4 |var\n           ^ "] ∧
      CommandLine.decode? text.toUTF8 = some "1 \"a\nb\";\n\t#\nvar" ∧
      Text.ReturnsPaired "1 \"a\nb\";\n\t#\nvar".toList ∧
      CommandLine.inputLines "a\r\n#" = ["a", "#"] ∧ Text.ReturnsPaired "#".toList := by
  intro text report
  have paired : Text.ReturnsPaired text.toList := by decide +kernel
  have contents : CommandLine.decode? text.toUTF8 = some "1 \"a\nb\";\n\t#\nvar" := by
    decide +kernel
  have lines : CommandLine.inputLines "a\r\n#" = ["a", "#"] := by cbv
  have isLine : "#" ∈ CommandLine.inputLines "a\r\n#" := by simp [lines]
  refine ⟨paired, illustrations_point_at_issues.1 (Report.fresh true) text 20 rfl paired, ?_, ?_,
    contents, illustrations_point_at_issues.2.1 _ _ contents, lines,
    illustrations_point_at_issues.2.2 _ _ isLine⟩
  · decide +kernel
  · decide +kernel

end LoxLang
