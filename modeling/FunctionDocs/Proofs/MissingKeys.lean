import FunctionDocs.Proofs.Loading
import FunctionDocs.Proofs.Values
import Mathlib.Data.List.Basic

/-!
# Messages about missing keys

Each look-up of a missing key gives one message that names it. One key is looked up twice, so a configuration has each missing
key reported once exactly if that key is there.
-/

open List

namespace FunctionDocs.App.Settings

variable {i : Installation} {now : Moment} {t : Tree} {path key : Text} {config : Value}

def namesMissing (key message : Text) : Bool := Text.startsWith message ("[configSetup] Missing key '" ++ key ++ "' in section '")

def reports (notes : List Text) (key : Text) : Nat := notes.countP (namesMissing key)

def rootKeys : List Text := ["document", "source_dir", "recursive", "output_format", "output_path", "backup_path", "readonly",
  "headerCommentStyle"]

lemma reports_singleton {key' : Text} (rest : Text) (hkey : '\'' ∉ key) (hkey' : '\'' ∉ key') :
    reports ["[configSetup] Missing key '" ++ key' ++ "' in section '" ++ rest] key = if key' = key then 1 else 0 := by
  rw [reports, countP_singleton]
  refine if_congr ?_ rfl rfl
  rw [namesMissing, Text.startsWith_iff]
  constructor
  · rintro ⟨r, hr⟩
    rw [append_assoc, append_assoc, append_assoc, append_assoc, append_right_inj] at hr
    have hquote : key ++ '\'' :: (" in section '" ++ r) = key' ++ '\'' :: (" in section '" ++ rest) := hr
    exact (Text.cut_unique hkey hkey' hquote).1.symm
  · rintro rfl
    exact prefix_append _ _

lemma reports_append (ns ns' : List Text) (key : Text) : reports (ns ++ ns') key = reports ns key + reports ns' key :=
  countP_append

lemma reports_notes {l : Lookup} (hkey : '\'' ∉ key) (hl : '\'' ∉ l.key) :
    reports (l.notes config) key =
      if (Value.lookup l.key (fieldsIn (l.sectionIn config))).isSome then 0 else if l.key = key then 1 else 0 := by
  rw [Lookup.notes]
  split
  · rfl
  · rw [append_assoc _ l.sectionName, append_assoc _ _ l.default.shown, reports_singleton _ hkey hl]

lemma reports_lookups {ls : List Lookup} {sec : Value} (hkey : '\'' ∉ key) (hls : ∀ l ∈ ls, '\'' ∉ l.key)
    (hsec : ∀ l ∈ ls, l.key = key → l.sectionIn config = sec) :
    reports (ls.flatMap (Lookup.notes config)) key =
      if (Value.lookup key (fieldsIn sec)).isSome then 0 else (ls.map (·.key)).count key := by
  induction ls with
  | nil => exact (ite_self 0).symm
  | cons l ls ih =>
    obtain ⟨hl, hls⟩ := forall_mem_cons.mp hls
    obtain ⟨hlsec, hsec⟩ := forall_mem_cons.mp hsec
    rw [flatMap_cons, reports_append, ih hls hsec, map_cons, reports_notes hkey hl]
    by_cases heq : l.key = key
    · rw [hlsec heq, heq]
      split <;> simp [Nat.add_comm]
    · simp [heq]

/-- The keys that are looked up, and whether this is done in the document section. -/
def lookedUp : List (Bool × Text) := [(false, "document"), (true, "date"), (true, "version"), (false, "output_format"),
  (true, "title"), (true, "version"), (true, "author"), (true, "logoPath"), (true, "highlightTodo"), (true, "showDocProgress"),
  (false, "source_dir"), (false, "recursive"), (false, "output_path"), (false, "backup_path"), (false, "readonly"),
  (false, "headerCommentStyle")]

lemma lookups_eq (i : Installation) (config : Value) :
    (false, "document".toList) :: (lookups i config).map (fun l => (l.inDocument, l.key)) = lookedUp := rfl

lemma reports_notesOn {inDocument : Bool} (h : (inDocument, key) ∈ lookedUp) (i : Installation) (path : Text) (config : Value) :
    reports (notesOn i path config) key =
      if (Value.lookup key (fieldsIn (if inDocument then documentIn config else config))).isSome then 0
      else (lookedUp.map (·.2)).count key := by
  have hmem : ∀ l ∈ lookups i config, (l.inDocument, l.key) ∈ lookedUp := by
    intro l hl
    rw [← lookups_eq i config]
    exact mem_cons_of_mem _ (mem_map_of_mem hl)
  have hquotes : ∀ x ∈ lookedUp, '\'' ∉ x.2 := by decide
  have hsections : ∀ x ∈ lookedUp, ∀ y ∈ lookedUp, x.2 = y.2 → x.1 = y.1 := by decide
  have hkey : '\'' ∉ key := hquotes _ h
  have hsec : ∀ l ∈ lookups i config, l.key = key → l.sectionIn config = if inDocument then documentIn config else config := by
    intro l hl heq
    have hsame : l.inDocument = inDocument := hsections _ (hmem l hl) _ h heq
    rw [Lookup.sectionIn, hsame]
  have hsection : reports (sectionNotes path config) key =
      if (Value.lookup "document" (fieldsIn config)).isSome then 0 else if "document".toList = key then 1 else 0 := by
    have hmessage : "[configSetup] Missing key 'document' in section 'root' in config file '".toList =
        "[configSetup] Missing key '" ++ "document".toList ++ "' in section '" ++ "root' in config file '" := by decide
    rw [sectionNotes, hmessage]
    split
    · rfl
    · rw [append_assoc _ _ path, append_assoc _ _ "'".toList, reports_singleton _ hkey (by decide)]
  rw [notesOn, reports_append, hsection, reports_lookups hkey (fun l hl => hquotes _ (hmem l hl)) hsec, ← lookups_eq i config,
    map_cons, map_map, count_cons]
  by_cases heq : "document".toList = key
  · have hroot : inDocument = false := (hsections _ h (false, "document") (by decide) heq.symm)
    subst heq
    rw [hroot, if_neg Bool.false_ne_true, if_pos rfl, beq_self_eq_true, if_pos rfl]
    split
    · rfl
    · exact Nat.add_comm ..
  · rw [if_neg heq, ite_self, Nat.zero_add, beq_false_of_ne heq, if_neg Bool.false_ne_true]
    rfl

def treeWith (config : Text) : Tree := { nodes := [(["c".toList], .file (Bytes.ofText config))] }

def versioned : Tree := treeWith "\x7b\"document\": \x7b\"version\": \"2\"\x7d\x7d"

end FunctionDocs.App.Settings
