import TwigLayout.Proofs.Logged
import TwigLayout.Proofs.Lookup
import TwigLayout.Settings

/-!
# Settings from mappings

Settings are read entry by entry, each of which sets one field. What comes out depends on the
entries alone and not on their order: every setting is the value of its key, and the default where
the mapping has no such key.

1. `Entries.foldlM_eq_ok`: setting one key after the other is looking all of them up. It is used
   for the settings and for both of their groups.
2. `patch_congr`: mappings with the same entries for all settings give the same settings.
3. `toEntries_eq_ok`: what is written is a mapping that gives back the settings.
4. `ofEntries_of_isWellFormed`: all of it, for every mapping of known settings and other names.
-/

namespace TwigLayout

/-! ## Mappings from texts -/

namespace Entries

variable {entries a b : Entries} {key : String} {v : Value}

theorem get?_cons (e : Value × Value) (entries : Entries) (key : String) :
    get? (e :: entries) key = if e.1 = .str key then some e.2 else get? entries key := by
  unfold get?
  rw [List.find?_cons]
  by_cases h : e.1 = .str key
  · rw [if_pos h, beq_iff_eq.mpr h, Option.map_some]
  · rw [if_neg h, beq_eq_false_iff_ne.mpr h]

/-- No key stands twice, and every key is a text that has a value as it should be. -/
structure Keyed (P : String → Value → Prop) (entries : Entries) : Prop where
  distinct : entries.Distinct
  each : ∀ e ∈ entries, ∃ key, e.1 = .str key ∧ P key e.2

theorem Keyed.nil (P : String → Value → Prop) : Keyed P [] :=
  ⟨.nil, fun _ h => absurd h List.not_mem_nil⟩

theorem Distinct.perm (h : a.Distinct) (hp : a.Perm b) : b.Distinct := by
  refine (hp.pairwise_iff ?_).mp h
  intro e f hef
  rw [Bool.eq_false_iff] at hef ⊢
  exact fun hfe => hef (Value.sameKey_symm hfe)

theorem Keyed.perm {P : String → Value → Prop} (h : Keyed P a) (hp : a.Perm b) : Keyed P b :=
  ⟨h.distinct.perm hp, fun e he => h.each e (hp.mem_iff.mpr he)⟩

theorem get?_eq_some_iff (h : entries.Distinct) :
    entries.get? key = some v ↔ (.str key, v) ∈ entries := by
  induction entries with
  | nil => simp [get?]
  | cons e entries ih =>
    obtain ⟨he, hentries⟩ := List.pairwise_cons.mp h
    rw [get?_cons, List.mem_cons]
    split
    · next hkey =>
      have hrest : (.str key, v) ∉ entries := fun hmem =>
        Bool.eq_false_iff.mp (he _ hmem) (Value.sameKey_str_iff.mpr hkey)
      rw [or_iff_left hrest, Option.some.injEq, ← hkey, Prod.ext_iff]
      exact ⟨fun hv => ⟨rfl, hv.symm⟩, fun hv => hv.2.symm⟩
    · next hkey =>
      have hne : (.str key, v) ≠ e := fun h => hkey (h ▸ rfl)
      rw [ih hentries, or_iff_right hne]

theorem get?_eq_none (h : ∀ e ∈ entries, e.1 ≠ .str key) : entries.get? key = none := by
  rw [get?, List.find?_eq_none.mpr fun e he => by simpa using h e he, Option.map_none]

theorem Keyed.of_get? {P : String → Value → Prop} (h : Keyed P entries)
    (hv : entries.get? key = some v) : P key v := by
  obtain ⟨key', hkey, hp⟩ := h.each _ ((get?_eq_some_iff h.distinct).mp hv)
  cases hkey
  exact hp

/-- The entries for certain keys. -/
def only (keys : List String) (entries : Entries) : Entries :=
  entries.filter fun e => keys.any fun key => e.1 == .str key

theorem mem_only_iff {keys : List String} (hkey : key ∈ keys) :
    (.str key, v) ∈ entries.only keys ↔ (.str key, v) ∈ entries := by
  rw [only, List.mem_filter, and_iff_left]
  exact List.any_eq_true.mpr ⟨key, hkey, beq_self_eq_true _⟩

/-- Look-ups see the entries for their keys alone, in whatever order they are. -/
theorem get?_congr (ha : a.Distinct) (hb : b.Distinct) {keys : List String}
    (hp : (a.only keys).Perm (b.only keys)) (hkey : key ∈ keys) : a.get? key = b.get? key := by
  refine Option.ext fun v => ?_
  rw [get?_eq_some_iff ha, get?_eq_some_iff hb, ← mem_only_iff hkey, hp.mem_iff,
    mem_only_iff hkey]

theorem get?_perm (ha : a.Distinct) (hp : a.Perm b) (key : String) : a.get? key = b.get? key :=
  have hkeys : (a.only [key]).Perm (b.only [key]) := hp.filter _
  get?_congr ha (ha.perm hp) hkeys List.mem_cons_self

/-- The mapping that is the value of a key, without entries if there is none. -/
def group (entries : Entries) (key : String) : Entries :=
  match entries.get? key with
  | some (.map inner) => inner
  | _ => []

/-! ## Mappings that are written -/

theorem keyed_named {P : String → Value → Prop} {pairs : List (String × Value)}
    (hn : (pairs.map Prod.fst).Nodup) (h : ∀ p ∈ pairs, P p.1 p.2) : Keyed P (named pairs) := by
  constructor
  · refine List.pairwise_map.mpr ((List.pairwise_map.mp hn).imp ?_)
    intro p q hne
    rw [Bool.eq_false_iff]
    exact fun hsame => hne (Value.str.inj (Value.sameKey_str_iff.mp hsame))
  · intro e he
    obtain ⟨p, hp, rfl⟩ := List.mem_map.mp he
    exact ⟨p.1, rfl, h p hp⟩

/-! ## Setting one key after the other -/

/-- If setting a key leaves to the entries behind it what they set, then setting all keys is looking
them up. -/
theorem foldlM_eq_ok {σ : Type} {set : σ → String → Value → Except Fault σ}
    (patch : σ → Entries → σ) {P : String → Value → Prop} (hnil : ∀ s, patch s [] = s)
    (hset : ∀ s key v rest, P key v → get? rest key = none →
      ∃ s', set s key v = .ok s' ∧ patch s' rest = patch s ((.str key, v) :: rest))
    (h : Keyed P entries) (s : σ) :
    (entries.foldlM (fun s e => do set s (← e.1.asName) e.2) s : Except Fault σ) =
      .ok (patch s entries) := by
  induction entries generalizing s with
  | nil => exact congrArg Except.ok (hnil s).symm
  | cons e entries ih =>
    obtain ⟨he, hdistinct⟩ := List.pairwise_cons.mp h.distinct
    obtain ⟨⟨key, hkey, hp⟩, heach⟩ := List.forall_mem_cons.mp h.each
    obtain ⟨k, v⟩ := e
    obtain rfl : k = .str key := hkey
    have hnone : get? entries key = none := get?_eq_none fun f hf hfkey => by
      have hsame := he f hf
      rw [hfkey, Value.sameKey_str_iff.mpr rfl] at hsame
      cases hsame
    obtain ⟨s', hs', hpatch⟩ := hset s key v entries hp hnone
    have hstep : (do set s (← Value.asName (.str key)) v : Except Fault σ) = .ok s' := hs'
    rw [List.foldlM_cons, hstep, ← hpatch]
    exact ih ⟨hdistinct, heach⟩ s'

end Entries

/-! ## The engine -/

namespace EngineSettings

variable {e : EngineSettings} {entries : Entries}

/-- The keys of the settings, in the order in which they are written. -/
def keys : List String :=
  ["print_width", "tab_width", "single_quote", "bracket_spacing", "semi",
    "html_whitespace_sensitivity", "parser", "plugin", "command", "timeout"]

/-- A mapping of known settings, in which the command is a list. -/
def IsWellFormed : Entries → Prop :=
  Entries.Keyed fun key v => key ∈ keys ∧ (key = "command" → ∃ items, v = .list items)

/-- The settings with those of a mapping in their places. -/
def patch (e : EngineSettings) (entries : Entries) : EngineSettings :=
  { printWidth := (entries.get? "print_width").getD e.printWidth
    tabWidth := (entries.get? "tab_width").getD e.tabWidth
    singleQuote := (entries.get? "single_quote").getD e.singleQuote
    bracketSpacing := (entries.get? "bracket_spacing").getD e.bracketSpacing
    semi := (entries.get? "semi").getD e.semi
    whitespaceSensitivity :=
      (entries.get? "html_whitespace_sensitivity").getD e.whitespaceSensitivity
    parser := (entries.get? "parser").getD e.parser
    plugin := (entries.get? "plugin").getD e.plugin
    command := (entries.get? "command").getD e.command
    timeout := (entries.get? "timeout").getD e.timeout }

theorem ofEntries_eq_ok (h : IsWellFormed entries) :
    ofEntries entries = .ok (patch {} entries) := by
  refine Entries.foldlM_eq_ok patch (fun _ => rfl) ?_ h {}
  rintro e key v rest ⟨hkey, -⟩ hrest
  simp only [keys, List.mem_cons, List.not_mem_nil, or_false] at hkey
  rcases hkey with rfl | rfl | rfl | rfl | rfl | rfl | rfl | rfl | rfl | rfl <;>
    exact ⟨_, rfl, by simp [patch, Entries.get?_cons, hrest]⟩

theorem patch_perm {a b : Entries} (ha : a.Distinct) (hp : a.Perm b) : patch e a = patch e b := by
  simp only [patch, Entries.get?_perm ha hp]

theorem command_patch (h : IsWellFormed entries) :
    ∃ items, (patch {} entries).command = .list items := by
  show ∃ items, (entries.get? "command").getD _ = _
  cases hcommand : entries.get? "command" with
  | none => exact ⟨_, rfl⟩
  | some v => exact (h.of_get? hcommand).2 rfl

/-- Settings with a command that is a list are written as they are. -/
theorem toEntries_eq_ok {items : List Value} (h : e.command = .list items) :
    ∃ written, e.toEntries = .ok written ∧ IsWellFormed written ∧ patch {} written = e := by
  obtain ⟨_, _, _, _, _, _, _, _, command, _⟩ := e
  obtain rfl : command = .list items := h
  refine ⟨_, rfl, Entries.keyed_named (show keys.Nodup by decide) ?_, ?_⟩
  · simp [keys]
  · simp [patch, Entries.named, Entries.get?_cons]

end EngineSettings

/-! ## Delimiters -/

namespace DelimiterSettings

variable {d : DelimiterSettings} {entries : Entries}

/-- The keys of the settings, in the order in which they are written. -/
def keys : List String :=
  ["comment_start", "comment_end", "block_start", "block_end", "variable_start", "variable_end",
    "component_prefix"]

/-- A mapping of known settings. -/
def IsWellFormed : Entries → Prop := Entries.Keyed fun key _ => key ∈ keys

/-- The settings with those of a mapping in their places. -/
def patch (d : DelimiterSettings) (entries : Entries) : DelimiterSettings :=
  { commentStart := (entries.get? "comment_start").getD d.commentStart
    commentEnd := (entries.get? "comment_end").getD d.commentEnd
    blockStart := (entries.get? "block_start").getD d.blockStart
    blockEnd := (entries.get? "block_end").getD d.blockEnd
    variableStart := (entries.get? "variable_start").getD d.variableStart
    variableEnd := (entries.get? "variable_end").getD d.variableEnd
    componentSpace := (entries.get? "component_prefix").getD d.componentSpace }

theorem ofEntries_eq_ok (h : IsWellFormed entries) :
    ofEntries entries = .ok (patch {} entries) := by
  refine Entries.foldlM_eq_ok patch (fun _ => rfl) ?_ h {}
  intro d key v rest hkey hrest
  simp only [keys, List.mem_cons, List.not_mem_nil, or_false] at hkey
  rcases hkey with rfl | rfl | rfl | rfl | rfl | rfl | rfl <;>
    exact ⟨_, rfl, by simp [patch, Entries.get?_cons, hrest]⟩

theorem patch_perm {a b : Entries} (ha : a.Distinct) (hp : a.Perm b) : patch d a = patch d b := by
  simp only [patch, Entries.get?_perm ha hp]

theorem isWellFormed_toEntries (d : DelimiterSettings) : IsWellFormed d.toEntries :=
  Entries.keyed_named (show keys.Nodup by decide) (by simp [keys])

theorem patch_toEntries (d : DelimiterSettings) : patch {} d.toEntries = d := by
  simp [patch, toEntries, Entries.named, Entries.get?_cons]

end DelimiterSettings

/-! ## All settings -/

/-- The slot with what was read from a mapping in its place, if there is one. -/
def Slot.patch {α : Type} (slot : Slot α) (read : Entries → α) : Option Value → Slot α
  | some (.map inner) => .group (read inner)
  | _ => slot

theorem Slot.patch_group {α : Type} {read : Entries → α} {P : Entries → Prop} {entries : Entries}
    {key : String} (hnil : P [])
    (h : ∀ v, entries.get? key = some v → ∃ inner, v = .map inner ∧ P inner) :
    P (entries.group key) ∧
      (group (read [])).patch read (entries.get? key) = group (read (entries.group key)) := by
  rw [Entries.group]
  cases hv : entries.get? key with
  | none => exact ⟨hnil, rfl⟩
  | some v =>
    obtain ⟨inner, rfl, hinner⟩ := h v hv
    exact ⟨hinner, rfl⟩

namespace Settings

variable {s : Settings} {entries : Entries}

/-- The keys of the settings, in the order in which they are written. -/
def keys : List String :=
  ["formatter", "syntax", "path_functions", "path_attribute", "strict_placeholders"]

/-- The names that a mapping of settings cannot give a value without touching the settings as a
whole. -/
def reserved : List String := ["to_dict", "__dict__", "__class__", "__weakref__"]

/-- What an entry can be: both groups are mappings of known settings, and the functions are a list.
Other names can have any value. -/
structure Admits (key : String) (v : Value) : Prop where
  free : key ∉ reserved
  engine : key = "formatter" → ∃ inner, v = .map inner ∧ EngineSettings.IsWellFormed inner
  delimiters : key = "syntax" → ∃ inner, v = .map inner ∧ DelimiterSettings.IsWellFormed inner
  functions : key = "path_functions" → ∃ items, v = .list items

def IsWellFormed : Entries → Prop := Entries.Keyed Admits

/-- The settings with those of a mapping in their places. A group starts from its defaults. -/
def patch (s : Settings) (entries : Entries) : Settings :=
  { engine := s.engine.patch (EngineSettings.patch {}) (entries.get? "formatter")
    delimiters := s.delimiters.patch (DelimiterSettings.patch {}) (entries.get? "syntax")
    pathFunctions := s.pathFunctions.map fun v => (entries.get? "path_functions").getD v
    pathAttribute := (entries.get? "path_attribute").getD s.pathAttribute
    strict := (entries.get? "strict_placeholders").getD s.strict
    writable := s.writable }

theorem patch_nil (s : Settings) : patch s [] = s := by
  simp [patch, Slot.patch, Entries.get?]

theorem exists_set_eq_ok {key : String} {v : Value} {rest : Entries} (h : Admits key v)
    (hrest : rest.get? key = none) :
    ∃ s', s.set key v = .ok s' ∧ patch s' rest = patch s ((.str key, v) :: rest) := by
  by_cases hengine : key = "formatter"
  · obtain ⟨inner, rfl, hinner⟩ := h.engine hengine
    subst hengine
    refine ⟨{ s with engine := .group (EngineSettings.patch {} inner) }, ?_, ?_⟩
    · rw [set, EngineSettings.ofEntries_eq_ok hinner]
      rfl
    · simp [patch, Slot.patch, Entries.get?_cons, hrest]
  by_cases hdelimiters : key = "syntax"
  · obtain ⟨inner, rfl, hinner⟩ := h.delimiters hdelimiters
    subst hdelimiters
    refine ⟨{ s with delimiters := .group (DelimiterSettings.patch {} inner) }, ?_, ?_⟩
    · rw [set, DelimiterSettings.ofEntries_eq_ok hinner]
      rfl
    · simp [patch, Slot.patch, Entries.get?_cons, hrest]
  have hfree := h.free
  simp only [reserved, List.mem_cons, List.not_mem_nil, or_false, not_or] at hfree
  obtain ⟨hwriter, hall, hclass, hrefs⟩ := hfree
  unfold set
  split
  · exact absurd rfl hengine
  · exact absurd rfl hdelimiters
  · exact absurd rfl hengine
  · exact absurd rfl hdelimiters
  · exact ⟨_, rfl, by simp [patch, Slot.patch, Entries.get?_cons, hrest, Function.comp_def]⟩
  · exact ⟨_, rfl, by simp [patch, Slot.patch, Entries.get?_cons, hrest]⟩
  · exact ⟨_, rfl, by simp [patch, Slot.patch, Entries.get?_cons, hrest]⟩
  · exact absurd rfl hwriter
  · exact absurd rfl hall
  · exact absurd rfl hall
  · exact absurd rfl hclass
  · exact absurd rfl hrefs
  · -- a name of no setting is looked up nowhere
    exact ⟨s, rfl, by simp_all [patch, Slot.patch, Entries.get?_cons]⟩

theorem ofEntries_eq_ok (h : IsWellFormed entries) : ofEntries entries = .ok (patch {} entries) :=
  Entries.foldlM_eq_ok patch patch_nil (fun _ _ _ _ => exists_set_eq_ok) h {}

/-! ### What does not count -/

theorem isWellFormed_engine (h : IsWellFormed entries) :
    EngineSettings.IsWellFormed (entries.group "formatter") ∧
      (patch {} entries).engine = .group (EngineSettings.patch {} (entries.group "formatter")) :=
  Slot.patch_group (.nil _) fun _ hv => (h.of_get? hv).engine rfl

theorem isWellFormed_delimiters (h : IsWellFormed entries) :
    DelimiterSettings.IsWellFormed (entries.group "syntax") ∧
      (patch {} entries).delimiters =
        .group (DelimiterSettings.patch {} (entries.group "syntax")) :=
  Slot.patch_group (.nil _) fun _ hv => (h.of_get? hv).delimiters rfl

/-- Two mappings give the same entries for all settings, in whatever order. Other names can be
different. -/
structure SameSettings (a b : Entries) : Prop where
  own : (a.only ["path_functions", "path_attribute", "strict_placeholders"]).Perm
    (b.only ["path_functions", "path_attribute", "strict_placeholders"])
  engine : (a.group "formatter").Perm (b.group "formatter")
  delimiters : (a.group "syntax").Perm (b.group "syntax")

theorem SameSettings.of_perm {a b : Entries} (ha : a.Distinct) (h : a.Perm b) :
    SameSettings a b where
  own := h.filter _
  engine := by rw [Entries.group, Entries.group, Entries.get?_perm ha h]
  delimiters := by rw [Entries.group, Entries.group, Entries.get?_perm ha h]

theorem patch_congr {a b : Entries} (ha : IsWellFormed a) (hb : IsWellFormed b)
    (h : SameSettings a b) : patch {} a = patch {} b := by
  have hown : ∀ key ∈ ["path_functions", "path_attribute", "strict_placeholders"],
      a.get? key = b.get? key :=
    fun _ => Entries.get?_congr ha.distinct hb.distinct h.own
  obtain ⟨hinner, hengine⟩ := isWellFormed_engine ha
  rw [EngineSettings.patch_perm hinner.distinct h.engine, ← (isWellFormed_engine hb).2] at hengine
  obtain ⟨hgroup, hdelimiters⟩ := isWellFormed_delimiters ha
  rw [DelimiterSettings.patch_perm hgroup.distinct h.delimiters, ← (isWellFormed_delimiters hb).2]
    at hdelimiters
  refine (Settings.mk.injEq ..).mpr ⟨hengine, hdelimiters, ?_, ?_, ?_, rfl⟩
  · rw [hown "path_functions" (by simp)]
  · rw [hown "path_attribute" (by simp)]
  · rw [hown "strict_placeholders" (by simp)]

/-! ### Written and read again -/

/-- Settings with both groups and with lists where there should be one are written as they are. -/
theorem toEntries_eq_ok {e : EngineSettings} {d : DelimiterSettings}
    {command functions : List Value} (hw : s.writable = true) (he : s.engine = .group e)
    (hcommand : e.command = .list command) (hd : s.delimiters = .group d)
    (hf : s.pathFunctions = some (.list functions)) :
    ∃ written, s.toEntries = .ok written ∧ IsWellFormed written ∧ patch {} written = s := by
  obtain ⟨engine, delimiters, pathFunctions, attr, strict, writable⟩ := s
  obtain rfl : writable = true := hw
  obtain rfl : engine = .group e := he
  obtain rfl : delimiters = .group d := hd
  obtain rfl : pathFunctions = some (.list functions) := hf
  obtain ⟨written, he, hwritten, hpatch⟩ := EngineSettings.toEntries_eq_ok hcommand
  refine ⟨.named [("formatter", .map written), ("syntax", .map d.toEntries),
    ("path_functions", .list functions), ("path_attribute", attr),
    ("strict_placeholders", strict)], ?_, Entries.keyed_named (show keys.Nodup by decide) ?_, ?_⟩
  · show (do
      return Entries.named [("formatter", .map (← e.toEntries)), ("syntax", .map d.toEntries),
        ("path_functions", .list functions), ("path_attribute", attr),
        ("strict_placeholders", strict)]) = _
    rw [he]
    rfl
  · rintro ⟨key, v⟩ hmem
    simp only [List.mem_cons, List.not_mem_nil, or_false, Prod.mk.injEq] at hmem
    rcases hmem with ⟨rfl, rfl⟩ | ⟨rfl, rfl⟩ | ⟨rfl, rfl⟩ | ⟨rfl, rfl⟩ | ⟨rfl, rfl⟩
    all_goals constructor <;> simp [reserved, hwritten, d.isWellFormed_toEntries]
  · simp [patch, Slot.patch, Entries.named, Entries.get?_cons, hpatch, d.patch_toEntries]

theorem roundTrips_patch (h : IsWellFormed entries) : (patch {} entries).roundTrips = .ok true := by
  obtain ⟨hinner, hengine⟩ := isWellFormed_engine h
  obtain ⟨-, hdelimiters⟩ := isWellFormed_delimiters h
  obtain ⟨command, hcommand⟩ := EngineSettings.command_patch hinner
  obtain ⟨functions, hfunctions⟩ : ∃ functions,
      (patch {} entries).pathFunctions = some (.list functions) := by
    show ∃ functions, some ((entries.get? "path_functions").getD _) = _
    cases hv : entries.get? "path_functions" with
    | none => exact ⟨_, rfl⟩
    | some v =>
      obtain ⟨items, rfl⟩ := (h.of_get? hv).functions rfl
      exact ⟨items, rfl⟩
  obtain ⟨written, hwritten, hwell, hpatch⟩ :=
    toEntries_eq_ok rfl hengine hcommand hdelimiters hfunctions
  have hread : ofEntries written = .ok (patch {} entries) := hpatch ▸ ofEntries_eq_ok hwell
  show (do return decide ((← ofEntries (← toEntries (patch {} entries))) = patch {} entries)) = _
  rw [hwritten]
  show (do return decide ((← ofEntries written) = patch {} entries)) = _
  rw [hread]
  exact congrArg Except.ok (decide_eq_true rfl)

/-- Every mapping of known settings and other names can be read, and each setting is the one that
the mapping gives, or else the default. The order of the entries does not count, nor do other names,
and what was read is the same after it was written and read again. -/
theorem ofEntries_of_isWellFormed (h : IsWellFormed entries) :
    ofEntries entries = .ok (patch {} entries) ∧
      (∀ other : Entries, other.Perm entries → ofEntries other = ofEntries entries) ∧
      (∀ other, IsWellFormed other → SameSettings other entries →
        ofEntries other = ofEntries entries) ∧
      (patch {} entries).roundTrips = .ok true := by
  have hsame : ∀ other, IsWellFormed other → SameSettings other entries →
      ofEntries other = ofEntries entries := by
    intro other hother hs
    rw [ofEntries_eq_ok hother, ofEntries_eq_ok h, patch_congr hother h hs]
  refine ⟨ofEntries_eq_ok h, fun other hp => ?_, hsame, roundTrips_patch h⟩
  have hother : IsWellFormed other := h.perm hp.symm
  exact hsame other hother (.of_perm hother.distinct hp)

/-- A mapping with both groups and with a name that is no setting. -/
def sample : Entries := .named
  [("syntax", .map (Entries.named [("component_prefix", .str "x:")])), ("colour", .int 1),
    ("formatter",
      .map (Entries.named [("print_width", .int 80), ("command", .list [.str "npx"])])),
    ("strict_placeholders", .bool true), ("path_functions", .list [.str "path", .str "url"])]

/-- The same settings in another order. -/
def rearranged : Entries := .named
  [("path_functions", .list [.str "path", .str "url"]), ("strict_placeholders", .bool true),
    ("formatter",
      .map (Entries.named [("command", .list [.str "npx"]), ("print_width", .int 80)])),
    ("syntax", .map (Entries.named [("component_prefix", .str "x:")]))]

theorem isWellFormed_sample : IsWellFormed sample ∧ IsWellFormed rearranged := by
  have hdelimiters : DelimiterSettings.IsWellFormed
      (.named [("component_prefix", .str "x:")]) :=
    Entries.keyed_named (by decide) (by simp [DelimiterSettings.keys])
  have hengine : EngineSettings.IsWellFormed
      (.named [("print_width", .int 80), ("command", .list [.str "npx"])]) :=
    Entries.keyed_named (by decide) (by simp [EngineSettings.keys])
  have hengine' : EngineSettings.IsWellFormed
      (.named [("command", .list [.str "npx"]), ("print_width", .int 80)]) :=
    hengine.perm (.swap ..)
  constructor <;> refine Entries.keyed_named (by decide) ?_ <;> rintro ⟨key, v⟩ hmem <;>
    simp only [List.mem_cons, List.not_mem_nil, or_false, Prod.mk.injEq] at hmem
  · rcases hmem with ⟨rfl, rfl⟩ | ⟨rfl, rfl⟩ | ⟨rfl, rfl⟩ | ⟨rfl, rfl⟩ | ⟨rfl, rfl⟩
    all_goals constructor <;> simp [reserved, hengine, hdelimiters]
  · rcases hmem with ⟨rfl, rfl⟩ | ⟨rfl, rfl⟩ | ⟨rfl, rfl⟩ | ⟨rfl, rfl⟩
    all_goals constructor <;> simp [reserved, hengine', hdelimiters]

theorem ofEntries_of_isWellFormed_rearranged :
    let s : Settings := {
      engine := .group { printWidth := .int 80, command := .list [.str "npx"] }
      delimiters := .group { componentSpace := .str "x:" }
      pathFunctions := some (.list [.str "path", .str "url"])
      strict := .bool true }
    ofEntries sample = .ok s ∧ ofEntries rearranged = .ok s ∧ s.roundTrips = .ok true := by
  intro s
  obtain ⟨hsample, hrearranged⟩ := isWellFormed_sample
  have hs : SameSettings rearranged sample := ⟨.swap .., .swap .., .refl _⟩
  obtain ⟨hok, -, hsame, hround⟩ := ofEntries_of_isWellFormed hsample
  have hpatch : patch {} sample = s := rfl
  exact ⟨hpatch ▸ hok, (hsame _ hrearranged hs).trans (hpatch ▸ hok), hpatch ▸ hround⟩

end Settings
end TwigLayout
