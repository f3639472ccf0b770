import Catalina.Formatter.Outcome
import Catalina.Formatter.Walk

/-!
# The format and what is accepted

The reader looks for the sentinel of an object wherever it is, and takes the bytes of strings and
names as they come, so it accepts more than the format.

* `WellFormed`: the format, for a value or a list of properties that ends right before an address.
* `Tight`: what the reader does not ask of the values it meets.
* `accepts_iff`: when `catalina_formatter_deserialize` answers `TRUE`.
* **`format_iff`**: an input on which it does is of the format exactly when all values the reader
  meets are tight; `trailing_byte_accepted`: an object with a byte behind its sentinel.
-/

namespace Catalina

/-- The tags that are followed by a length field. -/
def Tag.hasLength (t : Tag) : Prop := t = .string ∨ t = .double ∨ t = .float

variable (m : Memory)

/-- **The format.** Scalars have their exact size; strings and texts are as long as their length
field says and are empty or end in their only NUL; objects have the name of a type, properties whose
values take the declared lengths, and a sentinel as the last byte. -/
inductive WellFormed : Place → ℕ → Prop
  | word {a l k : ℕ} {t : Tag} {f : ℕ → Plain} (ht : m a = t.id) (hw : t.word = some (k, f))
      (hl : l = 1 + k) : WellFormed (.value a l) (a + l)
  | string {a l : ℕ} {t : Tag} (ht : m a = t.id) (hs : t.hasLength)
      (hl : l = 5 + be32 m (a + 1)) (hn : textAt m a = [] ∨ OneNul (textAt m a)) :
      WellFormed (.value a l) (a + l)
  | object {a l : ℕ} (ht : m a = Tag.object.id) (hn : OneNul (nameAt m a))
      (hp : WellFormed (.props (propsAt m a)) (a + l)) : WellFormed (.value a l) (a + l)
  | sentinel {c : ℕ} (hc : m c = 0) : WellFormed (.props c) (c + 1)
  | prop {c e : ℕ} (hc : m c ≠ 0)
      (hv : WellFormed (.value (valueAt m c) (lengthAt m c)) (nextAt m c))
      (hp : WellFormed (.props (nextAt m c)) e) : WellFormed (.props c) e

/-- The zero byte at which the loop over the properties from `c` on stops. -/
inductive Sentinel : ℕ → ℕ → Prop
  | here {c : ℕ} (hc : m c = 0) : Sentinel c c
  | next {c e : ℕ} (hc : m c ≠ 0) (h : Sentinel (nextAt m c) e) : Sentinel c e

/-- A value fills the `l` bytes that are declared for it: a scalar and a string by their size, where a
string or text is empty or ends in its only NUL, and an object by its sentinel, where the name of
the type ends in its only NUL. -/
inductive Tight (a l : ℕ) : Prop
  | word {t : Tag} {k : ℕ} {f : ℕ → Plain} (ht : m a = t.id) (hw : t.word = some (k, f))
      (hl : l = 1 + k)
  | string {t : Tag} (ht : m a = t.id) (hs : t.hasLength) (hl : l = 5 + be32 m (a + 1))
      (hn : textAt m a = [] ∨ OneNul (textAt m a))
  | object (ht : m a = Tag.object.id) (hn : OneNul (nameAt m a))
      (he : ∀ e, Sentinel m (propsAt m a) e → e + 1 = a + l)

/-- All values in a place are tight. -/
def AllTight (p : Place) : Prop := ∀ b k, HasProperty m p b k → Tight m b k

variable {m}

/-! ## The format is tight everywhere -/

theorem sentinel_unique {c e e' : ℕ} (h : Sentinel m c e) (h' : Sentinel m c e') : e = e' := by
  induction h with
  | here hc =>
    cases h' with
    | here _ => rfl
    | next hc' _ => exact absurd hc hc'
  | next hc _ ih =>
    cases h' with
    | here hc' => exact absurd hc' hc
    | next _ h => exact ih h

theorem object_of_hasProperty {a l b k : ℕ} (h : HasProperty m (.value a l) b k) :
    m a = Tag.object.id ∧ HasProperty m (.props (propsAt m a)) b k := by
  cases h with
  | object ht hp => exact ⟨ht, hp⟩

theorem tight_of_wellFormed {p : Place} {e : ℕ} (h : WellFormed m p e) :
    AllTight m p ∧ match p with
      | .value a l => Tight m a l
      | .props c => ∃ e', Sentinel m c e' ∧ e' + 1 = e := by
  induction h with
  | word ht hw hl =>
    refine ⟨fun b k hp => ?_, .word ht hw hl⟩
    cases Tag.id_injective (ht.symm.trans (object_of_hasProperty hp).1)
    cases hw
  | string ht hs hl hn =>
    refine ⟨fun b k hp => ?_, .string ht hs hl hn⟩
    cases Tag.id_injective (ht.symm.trans (object_of_hasProperty hp).1)
    exact absurd hs (by simp [Tag.hasLength])
  | object ht hn _ ih =>
    obtain ⟨hall, e', he, hlast⟩ := ih
    refine ⟨fun b k hp => hall b k (object_of_hasProperty hp).2, .object ht hn fun e h => ?_⟩
    rw [sentinel_unique h he, hlast]
  | sentinel hc =>
    refine ⟨fun b k hp => ?_, _, .here hc, rfl⟩
    cases hp with
    | here h | within h _ | later h _ => exact absurd hc h
  | prop hc _ _ ihv ihp =>
    obtain ⟨hall, e', he, hlast⟩ := ihp
    refine ⟨fun b k hp => ?_, e', .next hc he, hlast⟩
    cases hp with
    | here _ => exact ihv.2
    | within _ hv => exact ihv.1 b k hv
    | later _ hp => exact hall b k hp

/-! ## What is decoded and tight everywhere is of the format -/

variable {P : Process}

theorem wellFormed_of_decodes {j : Judgement} (h : Decodes P m j) :
    match j with
    | .value a _ _ => ∀ l, Tight m a l → AllTight m (.value a l) →
        WellFormed m (.value a l) (a + l)
    | .props c e _ _ => AllTight m (.props c) → WellFormed m (.props c) (e + 1) ∧ Sentinel m c e := by
  -- only an object needs the decoding: its sentinel is the one that was found
  have leaf : ∀ {a : ℕ} {t : Tag}, m a = t.id → t ≠ .object → ∀ l, Tight m a l →
      AllTight m (.value a l) → WellFormed m (.value a l) (a + l) := by
    intro a t ht hne l hl _
    cases hl with
    | word ht hw hl => exact .word ht hw hl
    | string ht hs hl hn => exact .string ht hs hl hn
    | object ht' _ _ => exact absurd (Tag.id_injective (ht.symm.trans ht')) hne
  induction h with
  | word ht hw _ => exact leaf ht (by rintro rfl; cases hw)
  | string ht _ => exact leaf ht (by decide)
  | text ht hF _ _ _ => exact leaf ht (by rintro rfl; cases hF)
  | object ht _ _ ih =>
    intro l hl hall
    obtain ⟨hp, hs⟩ := ih fun b k h => hall b k (.object ht h)
    cases hl with
    | word ht' hw _ =>
      cases Tag.id_injective (ht.symm.trans ht')
      cases hw
    | string ht' hs' _ _ =>
      cases Tag.id_injective (ht.symm.trans ht')
      exact absurd hs' (by simp [Tag.hasLength])
    | object _ hn he => exact .object ht hn (he _ hs ▸ hp)
  | sentinel hc => exact fun _ => ⟨.sentinel hc, .here hc⟩
  | prop hc _ _ ihv iho =>
    intro hall
    obtain ⟨hp, hs⟩ := iho fun b k h => hall b k (.later hc h)
    exact ⟨.prop hc (ihv _ (hall _ _ (.here hc)) fun b k h => hall b k (.within hc h)) hp,
      .next hc hs⟩

/-- **A value that is decoded is of the format exactly when it and the values in it are tight.** -/
theorem wellFormed_iff {a l l' : ℕ} {v : Option (GValue GObject)}
    (h : Decodes P m (.value a l' v)) :
    WellFormed m (.value a l) (a + l) ↔ Tight m a l ∧ AllTight m (.value a l) :=
  ⟨fun hw => (tight_of_wellFormed hw).symm, fun ⟨ht, hall⟩ => wellFormed_of_decodes h l ht hall⟩

/-! ## Inputs -/

/-- The input is of the format: the version, a byte of flags and one value that takes the rest. -/
def WellFormedInput (m : Memory) (bufferLength : ℕ) : Prop :=
  m 0 = 1 ∧ 2 ≤ bufferLength ∧ WellFormed m (.value 2 (bufferLength - 2)) bufferLength

/-- What is accepted: the version, and a value that is decoded for the length as a `guint`. -/
def AcceptedInput (P : Process) (m : Memory) (bufferLength : ℕ) : Prop :=
  m 0 = 1 ∧ DecodesPlace P m (.value 2 (guintSub bufferLength 2))

/-- All values of the input are tight, the first one for the bytes behind the flags. -/
def TightInput (m : Memory) (bufferLength : ℕ) : Prop :=
  2 ≤ bufferLength ∧ Tight m 2 (bufferLength - 2) ∧ AllTight m (.value 2 (bufferLength - 2))

/-- `catalina_formatter_deserialize` answers `TRUE`. -/
def Deserializes (P : Process) (m : Memory) (bufferLength : ℕ) : Prop :=
  ∃ n r, ((realDeserialize P n bufferLength).run m).result = .ok r ∧ r.success = true

variable {bufferLength : ℕ}

theorem accepts_iff : Deserializes P m bufferLength ↔ AcceptedInput P m bufferLength := by
  unfold Deserializes AcceptedInput
  simp only [realDeserialize_result]
  constructor
  · rintro ⟨n, r, hr, hs⟩
    split_ifs at hr with h₀
    · exact ⟨h₀, _, (decodes_of_value decodes_of_readProps hr hs).1⟩
    · cases hr
      cases hs
  · rintro ⟨h₀, v, hv⟩
    obtain ⟨n, hn⟩ := (decodes_iff bufferLength).mp hv
    exact ⟨n, _, by rw [if_pos h₀, hn], rfl⟩

theorem wellFormedInput_iff (h : AcceptedInput P m bufferLength) :
    WellFormedInput m bufferLength ↔ TightInput m bufferLength := by
  obtain ⟨h₀, v, hv⟩ := h
  unfold WellFormedInput TightInput
  have hend : 2 ≤ bufferLength → 2 + (bufferLength - 2) = bufferLength := by omega
  constructor
  · rintro ⟨_, h₂, hw⟩
    exact ⟨h₂, (wellFormed_iff hv).mp ((hend h₂).symm ▸ hw)⟩
  · rintro ⟨h₂, ht⟩
    have hw := (wellFormed_iff hv).mpr ht
    rw [hend h₂] at hw
    exact ⟨h₀, h₂, hw⟩

/-- **Only the format is accepted** exactly where everything that is accepted is tight. -/
theorem format_iff (P : Process) (m : Memory) (bufferLength : ℕ) :
    (Deserializes P m bufferLength → WellFormedInput m bufferLength) ↔
      (AcceptedInput P m bufferLength → TightInput m bufferLength) := by
  rw [accepts_iff]
  exact forall_congr' wellFormedInput_iff

/-- An object of the class `A` without properties, and a byte behind its sentinel. -/
def trailingByte : Bytes := [1, 0, 15, 2, 65, 0, 0, 99]

/-- **The byte behind the sentinel is accepted.** -/
theorem trailing_byte_accepted :
    ¬ (Deserializes sampleProcess (memoryOf trailingByte) trailingByte.length →
      WellFormedInput (memoryOf trailingByte) trailingByte.length) := by
  intro h
  obtain ⟨_, _, hw⟩ := h ⟨1, ⟨true, some (.object 0 (some (.mk 0 []))), none⟩, rfl, rfl⟩
  obtain ⟨_, ht⟩ := tight_of_wellFormed hw
  cases ht with
  | word ht hw _ =>
    cases Tag.id_injective (t := .object) ht
    cases hw
  | string ht hs _ _ =>
    cases Tag.id_injective (t := .object) ht
    exact absurd hs (by simp [Tag.hasLength])
  | object _ _ he => exact absurd (he 6 (.here rfl)) (by decide)

end Catalina
