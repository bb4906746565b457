import FunctionDocs.Proofs.Closings
import FunctionDocs.Proofs.Replacement
import FunctionDocs.Proofs.RunSteps
import FunctionDocs.Proofs.Tree

/-!
# A run and the code of a file

A run that writes puts headers and closing comments into a file and, in the Doxygen style, documentation in place of the
headers. If all these edits are made outside of comments, with texts that do not end a comment, then the code of the file
can only shrink, and it is kept exactly if no header that gave way took code with it.
-/

namespace FunctionDocs.Run

open Text Code Header

variable {ls : List Text} {content path : Text} {es : List Entry} {r : Request} {result : Option (List Entry)}

/-! ## The edits of a run -/

/-- Properties hold at every header and at every closing comment that is put into a text. -/
def AlongInsertion (style : Option Value) (content : Text) (header closing : List Text → Source.Function → Prop) : Prop :=
  Then (Source.functionsOf content []) fun fs => Each (headerFor style) header content.lines fs.reverse ∧
    Then (fs.reverse.foldlM (headerFor style) content.lines) fun ls => Each postFor closing ls fs

instance (style : Option Value) (content : Text) (header closing : List Text → Source.Function → Prop)
    [∀ ls f, Decidable (header ls f)] [∀ ls f, Decidable (closing ls f)] :
    Decidable (AlongInsertion style content header closing) :=
  inferInstanceAs (Decidable (Then _ fun _ => Each _ _ _ _ ∧ Then _ fun _ => Each _ _ _ _))

/-- A property holds at every documentation that is put into a text. -/
def AlongReplacement (path content : Text) (documentation : List Text → Entry → Prop) : Prop :=
  Then (entriesOf path content) fun es => Each replaceFor documentation content.lines es.reverse

instance (path content : Text) (documentation : List Text → Entry → Prop) [∀ ls e, Decidable (documentation ls e)] :
    Decidable (AlongReplacement path content documentation) :=
  inferInstanceAs (Decidable (Then _ fun _ => Each _ _ _ _))

/-- Every edit of a run over a text is made outside of comments and puts in nothing that ends a comment; line feeds are the only
line ends of the text. -/
@[mk_iff]
structure RunPlaced (style : Value) (path content : Text) : Prop where
  fed : DocBlock.Fed content
  inserted : AlongInsertion (some style) content (HeaderPlaced (some style)) PostPlaced
  replaced : (style == .str "doxygen") = true →
    Then (insertComments content (some style)) fun new => AlongReplacement path new ReplacePlaced

/-- No header that gives way in a run over a text takes code with it. -/
@[mk_iff]
structure RunClean (style : Value) (path content : Text) : Prop where
  inserted : AlongInsertion (some style) content (HeaderClean (some style)) fun _ _ => True
  replaced : (style == .str "doxygen") = true →
    Then (insertComments content (some style)) fun new => AlongReplacement path new ReplaceClean

instance (style : Value) (path content : Text) : Decidable (RunClean style path content) := decidable_of_iff _ (runClean_iff ..).symm

instance (style : Value) (path content : Text) : Decidable (RunPlaced style path content) := decidable_of_iff _ (runPlaced_iff ..).symm

lemma shrinks_insertComments {style : Option Value} {new : Text}
    (hplaced : AlongInsertion style content (HeaderPlaced style) PostPlaced) (h : insertComments content style = .ok new) :
    ∃ ls, new = unlines ls ++ "\n" ∧
      Shrinks (AlongInsertion style content (HeaderClean style) fun _ _ => True) content.lines ls := by
  obtain ⟨fs, hfs, hheaders⟩ := ok_of_bind_ok h
  obtain ⟨mid, hmid, hclosings⟩ := ok_of_bind_ok hheaders
  obtain ⟨ls, hls, hlast⟩ := ok_of_bind_ok hclosings
  cases hlast
  obtain ⟨hplaced₁, hplaced₂⟩ := (Then.of_ok hfs).mp hplaced
  have hflat : ∀ l ∈ content.lines, Flat l := fun l hl => (mem_lines hl).2
  have hfirst : Shrinks (Each (headerFor style) (HeaderClean style) content.lines fs.reverse) content.lines mid :=
    shrinks_run (fun f _ ls ls' => shrinks_headerFor) hflat hplaced₁ hmid
  have hsecond : Shrinks (Each postFor (fun _ _ => True) mid fs) mid ls :=
    shrinks_run (fun f hf ls ls' => shrinks_postFor (Source.functionsOf_flat hfs f hf).1) hfirst.flat
      ((Then.of_ok hmid).mp hplaced₂) hls
  refine ⟨ls, rfl, (hfirst.trans hsecond).congr ?_⟩
  have hwhole : (AlongInsertion style content (HeaderClean style) fun _ _ => True) ↔
      Each (headerFor style) (HeaderClean style) content.lines fs.reverse ∧
        Then (fs.reverse.foldlM (headerFor style) content.lines) fun ls => Each postFor (fun _ _ => True) ls fs :=
    Then.of_ok hfs
  have hafter : (Then (fs.reverse.foldlM (headerFor style) content.lines) fun ls => Each postFor (fun _ _ => True) ls fs) ↔
      Each postFor (fun _ _ => True) mid fs := Then.of_ok hmid
  rw [hwhole, hafter]

lemma shrinks_reread (h : ∀ l ∈ ls, Flat l) : Shrinks True ls (unlines ls ++ "\n").lines := by
  by_cases hne : ls = []
  · rw [hne]
    refine ⟨by decide, iff_true_intro (by decide), by decide⟩
  · rw [lines_unlines h hne]
    exact .refl h

lemma shrinks_replaceHeaders {ls' : List Text} (hflat : ∀ l ∈ ls, Flat l)
    (hes : entriesOf path (unlines ls ++ "\n") = .ok es)
    (hplaced : AlongReplacement path (unlines ls ++ "\n") ReplacePlaced)
    (h : replaceHeaders (unlines ls ++ "\n") es = .ok ls') :
    Shrinks (AlongReplacement path (unlines ls ++ "\n") ReplaceClean) ls ls' := by
  obtain ⟨fs, hfs, hdocument⟩ := ok_of_bind_ok hes
  have hdoc : ∀ e ∈ es.reverse, Documented e := fun e he =>
    documented_of_document hfs hdocument e (List.mem_reverse.mp he)
  have hread := shrinks_reread hflat
  have hrun : Shrinks (Each replaceFor ReplaceClean (unlines ls ++ "\n").lines es.reverse) (unlines ls ++ "\n").lines ls' :=
    shrinks_run (fun e he ls ls' => shrinks_replaceFor (hdoc e he)) hread.flat ((Then.of_ok hes).mp hplaced) h
  have hwhole : AlongReplacement path (unlines ls ++ "\n") ReplaceClean ↔
      Each replaceFor ReplaceClean (unlines ls ++ "\n").lines es.reverse := Then.of_ok hes
  refine (hread.trans hrun).congr ?_
  rw [hwhole, true_and]

/-! ## The files of a run -/

lemma not_mem_unlines (h : ∀ l ∈ ls, Flat l) : '\r' ∉ unlines ls ++ "\n" := by
  have hfed : DocBlock.Fed (unlines ls ++ "\n") :=
    (DocBlock.joinWith_fed (by decide) fun l hl => DocBlock.fed_of_flat (h l hl)).append (by decide)
  exact fun hm => absurd (hfed '\r' hm (by decide)) (by decide)

lemma backUp_readText {t t' : Tree} {directory : Value} {done : Bool}
    (hread : t.readText path = .ok content) (h : Gives (backUp path directory) t done t') : t'.readText path = .ok content := by
  obtain ⟨bs, hbs, -⟩ := ok_of_bind_ok hread
  obtain ⟨p, hp, hfile⟩ := Tree.readBytes_iff.mp hbs
  rcases backUp_gives h with ⟨-, -, rfl⟩ | ⟨dir, mid, -, -, -, hdirs, hcopy⟩
  · exact hread
  · have hmade := Tree.ensureDirs_keeps (by rw [hfile]; rfl) hdirs
    have hthere : mid.at? p = some (.file bs) := hmade.node.trans hfile
    have hcopied := Tree.copyFile_keeps (hmade.toWidens.resolve hp hfile) (by rw [hthere]; rfl) hcopy
    exact (hmade.trans hcopied).readText hp hread

lemma rewriteFile_code {style : Value} {t t' : Tree}
    (hread : t.readText path = .ok content) (hplaced : RunPlaced style path content)
    (h : Gives (rewriteFile style path) t result t') :
    result ≠ none ∧ ∃ content', t'.readText path = .ok content' ∧
      (codeOf content' = codeOf content ↔ RunClean style path content) := by
  obtain ⟨_, new, mid, text, es₀, es, hread', hnew, hwritten, htext, hes, rfl, hlast⟩ := rewriteFile_gives h
  obtain rfl := Except.ok.inj (hread.symm.trans hread')
  obtain ⟨ls, rfl, hinserted⟩ := shrinks_insertComments hplaced.inserted hnew
  have hmid := Tree.readText_writeText hread (not_mem_unlines hinserted.flat) hwritten
  obtain rfl := Except.ok.inj (hmid.symm.trans htext)
  rw [codeOf_lines hplaced.fed]
  split at hlast
  next hstyle =>
    obtain ⟨ls', hls', hwritten', -⟩ := hlast
    have hplaced' : AlongReplacement path (unlines ls ++ "\n") ReplacePlaced := (Then.of_ok hnew).mp (hplaced.replaced hstyle)
    have hreplaced := shrinks_replaceHeaders hinserted.flat hes hplaced' hls'
    have hdone := Tree.readText_writeText hmid (not_mem_unlines hreplaced.flat) hwritten'
    have hcode : codeOf (unlines ls' ++ "\n") = (scanLines .plain ls').1 := codeOf_unlines ls'
    have hclean : RunClean style path content ↔
        (AlongInsertion (some style) content (HeaderClean (some style)) fun _ _ => True) ∧
          AlongReplacement path (unlines ls ++ "\n") ReplaceClean :=
      ⟨fun hclean => ⟨hclean.inserted, (Then.of_ok hnew).mp (hclean.replaced hstyle)⟩,
        fun hclean => ⟨hclean.1, fun _ => (Then.of_ok hnew).mpr hclean.2⟩⟩
    exact ⟨nofun, _, hdone, by rw [hcode, (hinserted.trans hreplaced).kept, hclean]⟩
  next hstyle =>
    obtain ⟨rfl, rfl⟩ := hlast
    refine ⟨nofun, _, hmid, ?_⟩
    have hcode : codeOf (unlines ls ++ "\n") = (scanLines .plain ls).1 := codeOf_unlines ls
    rw [hcode, hinserted.kept]
    exact ⟨fun hclean => ⟨hclean, fun h => absurd h hstyle⟩, fun hclean => hclean.inserted⟩

lemma documentFile_code {t t' : Tree}
    (hwrite : r.readOnly = false) (hread : t.readText path = .ok content) (hplaced : RunPlaced r.style path content)
    (h : Gives (documentFile r path) t result t') :
    ∃ content', t'.readText path = .ok content' ∧
      (codeOf content' = codeOf content ↔ result = none ∨ RunClean r.style path content) := by
  obtain ⟨kept, mid, hkept, hrest⟩ := documentFile_writes hwrite h
  have hmid : mid.readText path = .ok content := by
    split at hkept
    · exact backUp_readText hread hkept
    · rwa [hkept.2]
  split at hrest
  · obtain ⟨hne, content', hread', hiff⟩ := rewriteFile_code hmid hplaced hrest
    exact ⟨content', hread', hiff.trans ⟨.inr, fun hclean => hclean.resolve_left hne⟩⟩
  · obtain ⟨rfl, rfl⟩ := hrest
    exact ⟨content, hmid, iff_of_true rfl (.inl rfl)⟩

/-- A run that writes leaves a file with the code it had exactly if the run was refused or no header that gave way took code with
it. -/
theorem generate_code_eq_iff {arguments : Value} {r : Request} {path content : Text} {t t' : Tree} {o : Outcome}
    (hrequest : Request.ofArguments arguments = .ok r) (hwrite : r.readOnly = false) (hread : t.readText path = .ok content)
    (hplaced : RunPlaced r.style path content) (h : (generate arguments [path]).run.run t = (.ok o, t')) :
    ∃ content', t'.readText path = .ok content' ∧
      (codeOf content' = codeOf content ↔ (∃ reason, o = .refused reason) ∨ RunClean r.style path content) := by
  obtain ⟨result, last, hfile, hmore⟩ := documentFiles_gives (generate_gives hrequest h)
  obtain ⟨content', hread', hiff⟩ := documentFile_code hwrite hread hplaced hfile
  cases result with
  | none =>
    obtain ⟨hrefused, rfl⟩ := hmore
    exact ⟨content', hread', hiff.trans (or_congr_left (iff_of_true rfl hrefused))⟩
  | some es =>
    obtain ⟨rest, hnone, rfl⟩ := hmore
    obtain ⟨rfl, rfl⟩ := gives_pure hnone
    exact ⟨content', hread', hiff.trans (or_congr_left (iff_of_false nofun (by rintro ⟨reason, ho⟩; cases ho)))⟩

/-- Arguments of a run that writes, in the Doxygen style and without a backup. -/
def doxygenArguments : Value :=
  .obj [("readonly", .bool false), ("headerCommentStyle", .str "doxygen"), ("backup_path", .null)]

def oneFile (content : Text) : Tree := ⟨[(["a.cpp"], .file (Bytes.ofText content))], []⟩

/-- A function below a comment of several lines, with a line comment behind it. -/
def longHeader : Text := "/**\n * @brief adds\n */\nint add(int a) \x7b\n  return a;\n\x7d // end\n"

/-- The documentation of a function takes the place of a comment of several lines without loss. -/
theorem longHeader_code_kept :
    Request.ofArguments doxygenArguments = .ok ⟨false, .str "doxygen", .null⟩ ∧
      (oneFile longHeader).readText "a.cpp" = .ok longHeader ∧ RunPlaced (.str "doxygen") "a.cpp" longHeader ∧
      ∃ o t' content', (generate doxygenArguments ["a.cpp"]).run.run (oneFile longHeader) = (.ok o, t') ∧
        t'.readText "a.cpp" = .ok content' ∧ codeOf content' = codeOf longHeader := by
  have hrequest : Request.ofArguments doxygenArguments = .ok ⟨false, .str "doxygen", .null⟩ := rfl
  have hread : (oneFile longHeader).readText "a.cpp" = .ok longHeader := by decide
  have hplaced : RunPlaced (.str "doxygen") "a.cpp" longHeader := by decide
  have hclean : RunClean (.str "doxygen") "a.cpp" longHeader := by decide
  obtain ⟨o, t', hrun, -⟩ : ∃ o t', (generate doxygenArguments ["a.cpp"]).run.run (oneFile longHeader) = (.ok o, t') ∧ True := by
    decide +kernel
  obtain ⟨content', hread', hiff⟩ := generate_code_eq_iff hrequest rfl hread hplaced hrun
  exact ⟨hrequest, hread, hplaced, o, t', content', hrun, hread', hiff.mpr (Or.inr hclean)⟩

def shortHeader : Text := "/** adds */\nint add(int a) \x7b\n  return a;\n\x7d\n"

/-- A comment on one line gives way with all lines down to the next closing mark, which is the one behind the function. -/
theorem shortHeader_takes_code :
    RunPlaced (.str "doxygen") "a.cpp" shortHeader ∧ ¬RunClean (.str "doxygen") "a.cpp" shortHeader ∧
      ((generate doxygenArguments ["a.cpp"]).run.run (oneFile shortHeader)).1.isOk = true ∧
      ((generate doxygenArguments ["a.cpp"]).run.run (oneFile shortHeader)).2.readText "a.cpp" =
        .ok "/**\n * @brief TODO add description.\n * @param a TODO\n * @return TODO\n */\n".toList ∧
      codeOf "/**\n * @brief TODO add description.\n * @param a TODO\n * @return TODO\n */\n" ≠ codeOf shortHeader := by
  decide +kernel

end FunctionDocs.Run
