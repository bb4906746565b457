import FunctionDocs.App.Phrasebook

/-!
# Phrases and their keys

The parts of a key lead from object to object. A phrase that is not there is replaced by its key, unless the way to it comes to
a value without fields before the key ends: the look-up fails there.
-/

namespace FunctionDocs.App.Phrasebook

variable {v w : Value} {part : Text} {parts : List Text} {fields : List (Text × Value)}

/-- The parts of a key lead from a value to another one: each is the name of a field that is there and not null. -/
inductive LeadsTo : Value → List Text → Value → Prop where
  | here (v : Value) : LeadsTo v [] v
  | field {fields : List (Text × Value)} {part : Text} {v w : Value} {parts : List Text} :
      Value.lookup part fields = some v → v ≠ .null → LeadsTo v parts w → LeadsTo (.obj fields) (part :: parts) w

/-- Wherever the way along a key leads before its last part, there is an object. -/
def Open (v : Value) (parts : List Text) : Prop :=
  ∀ front part rest w, parts = front ++ part :: rest → LeadsTo v front w → ∃ fields, w = .obj fields

theorem leadsTo_cons :
    LeadsTo (.obj fields) (part :: parts) w ↔ ∃ v, Value.lookup part fields = some v ∧ v ≠ .null ∧ LeadsTo v parts w := by
  constructor
  · rintro (_ | ⟨hfound, hnull, hleads⟩)
    exact ⟨_, hfound, hnull, hleads⟩
  · rintro ⟨v, hfound, hnull, hleads⟩
    exact .field hfound hnull hleads

theorem open_cons : Open (.obj fields) (part :: parts) ↔ ∀ v, Value.lookup part fields = some v → v ≠ .null → Open v parts := by
  constructor
  · rintro h v hfound hnull front part' rest w rfl hleads
    exact h (part :: front) part' rest w rfl (.field hfound hnull hleads)
  · intro h front part' rest w heq hleads
    cases front with
    | nil =>
      cases hleads
      exact ⟨fields, rfl⟩
    | cons p front =>
      cases heq
      obtain ⟨v, hfound, hnull, hleads⟩ := leadsTo_cons.mp hleads
      exact h v hfound hnull front part' rest w rfl hleads

/-- Following a key gives what it leads to, or nothing; it fails exactly if the way is not open. -/
theorem follow_spec (v : Value) (parts : List Text) :
    (∃ f, follow v parts = .error f ∧ ¬Open v parts ∧ ¬∃ w, LeadsTo v parts w) ∨
      ∃ o, follow v parts = .ok o ∧ Open v parts ∧ ∀ w, LeadsTo v parts w ↔ o = some w := by
  fun_induction follow v parts with
  | case1 v =>
    refine .inr ⟨_, rfl, fun front part rest w heq => by simp at heq, fun w => ?_⟩
    constructor
    · rintro ⟨⟩
      rfl
    · rintro ⟨⟩
      exact .here v
  | case2 fields part parts hfound =>
    refine .inr ⟨none, rfl, open_cons.mpr fun v hv => ?_, fun w => ?_⟩
    · rw [hfound] at hv
      cases hv
    · rw [leadsTo_cons]
      simp [hfound]
  | case3 fields part parts hfound =>
    refine .inr ⟨none, rfl, open_cons.mpr fun v hv hnull => ?_, fun w => ?_⟩
    · rw [hfound] at hv
      exact absurd (Option.some.inj hv).symm hnull
    · rw [leadsTo_cons]
      simp [hfound]
  | case4 fields part parts v hnull hfound ih =>
    have hopen : Open (.obj fields) (part :: parts) ↔ Open v parts := by
      rw [open_cons, hfound]
      exact ⟨fun h => h v rfl hnull, fun h u hu _ => Option.some.inj hu ▸ h⟩
    have hleads : ∀ w, LeadsTo (.obj fields) (part :: parts) w ↔ LeadsTo v parts w := by
      intro w
      rw [leadsTo_cons, hfound]
      exact ⟨fun ⟨u, hu, _, h⟩ => Option.some.inj hu ▸ h, fun h => ⟨v, rfl, hnull, h⟩⟩
    simp only [hopen, hleads]
    exact ih
  | case5 v part parts hobject =>
    refine .inl ⟨_, rfl, fun hopen => ?_, ?_⟩
    · obtain ⟨fields, rfl⟩ := hopen [] part parts v rfl (.here v)
      exact hobject fields rfl
    · rintro ⟨w, ⟨⟩⟩
      exact hobject _ rfl

/-- A look-up gives what the key leads to, and the key itself if it leads nowhere, exactly if the way along the key is open. -/
theorem phrase_answers_iff (b : Phrasebook) (key : Text) :
    ((∀ w, LeadsTo b.phrases (Text.splitOnChar '.' key) w → b.phrase key = .ok w) ∧
        ((¬∃ w, LeadsTo b.phrases (Text.splitOnChar '.' key) w) → b.phrase key = .ok (.str key))) ↔
      Open b.phrases (Text.splitOnChar '.' key) := by
  rw [phrase]
  rcases follow_spec b.phrases (Text.splitOnChar '.' key) with ⟨f, hfollow, hopen, hnone⟩ | ⟨o, hfollow, hopen, hleads⟩
  · rw [hfollow]
    refine iff_of_false ?_ hopen
    rintro ⟨-, hkey⟩
    cases hkey hnone
  · rw [hfollow]
    refine iff_of_true ⟨fun w hw => ?_, fun hnone => ?_⟩ hopen
    · rw [(hleads w).mp hw]
      rfl
    · cases o with
      | none => rfl
      | some w => exact absurd ⟨w, (hleads w).mpr rfl⟩ hnone

/-- A key that goes on behind a text leads nowhere, and its look-up fails. -/
theorem phrase_behind_text :
    (¬∃ w, LeadsTo (.obj [("a", .str "x")]) (Text.splitOnChar '.' "a.b") w) ∧
      phrase ⟨"de", .obj [("a", .str "x")]⟩ "a.b" = .error (.noOperation "str" "get") := by
  refine ⟨?_, rfl⟩
  rintro ⟨w, h⟩
  obtain ⟨v, hfound, -, hleads⟩ := leadsTo_cons.mp h
  cases hfound
  cases hleads

end FunctionDocs.App.Phrasebook
