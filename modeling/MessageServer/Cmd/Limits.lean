import MessageServer.Cmd.Configuration

/-! # The limits that are enforced and advertised

The retention limits of the store and the capabilities of the server are fields of
32 bits, in which zero stands for no cap and all ones for an indefinite time. They
are taken from fields of 64 bits.
-/

namespace MessageServer.Cmd

open Store

def uint32 (n : ℤ) : ℕ := (n % 2 ^ 32).toNat

def limitsOf (loaded : Configuration) : Limits :=
  { defaultLimits with
    durableTtlDefaultSeconds := uint32 loaded.durableTtlDefaultSeconds
    durableTtlMaxSeconds := uint32 loaded.durableTtlMaxSeconds }

structure Capabilities where
  maxRequestBytes : ℕ
  maxResponseBytes : ℕ
  maxRecordsPerSubmit : ℕ
  maxRecordsPerFetch : ℕ
  mediaTtlDefaultSeconds : ℕ
  mediaTtlMaxSeconds : ℕ
  durableRetentionMinSeconds : ℕ
  durableTtlDefaultSeconds : ℕ
  durableTtlMaxSeconds : ℕ
  operatorHost : Bytes
  hostingJurisdiction : Bytes
  readKeyWindowSeconds : ℕ
  ephBucketSeconds : List ℕ
  sizeBucketBytes : List ℕ
  rendezvousDepositSizes : List ℕ
  rendezvousKinds : ℕ

/-- What a server advertises by: its configuration, the ladders of the record layer, and what its
handler, if it has one, serves of the rendezvous. -/
structure Server where
  config : Configuration
  ephBucketSeconds : ℕ → ℤ
  sizeBucketBytes : ℕ → ℤ
  rendezvousDepositSizes : Option (List ℕ)
  rendezvousKinds : Option ℕ

def ladder (rung : ℕ → ℤ) : List ℕ :=
  (((List.range 256).map rung).takeWhile (0 ≤ ·)).map uint32

def Server.capabilities (server : Server) : Capabilities :=
  let limits := limitsOf server.config
  { maxRequestBytes := 131072
    maxResponseBytes := 1048576
    maxRecordsPerSubmit := 256
    maxRecordsPerFetch := 512
    mediaTtlDefaultSeconds := limits.mediaTtlDefaultSeconds
    mediaTtlMaxSeconds := limits.mediaTtlMaxSeconds
    durableRetentionMinSeconds := limits.durableRetentionMinSeconds
    durableTtlDefaultSeconds := limits.durableTtlDefaultSeconds
    durableTtlMaxSeconds := limits.durableTtlMaxSeconds
    operatorHost := server.config.operatorHost
    hostingJurisdiction := server.config.hostingJurisdiction
    readKeyWindowSeconds := uint32 server.config.readKeyWindowSeconds
    ephBucketSeconds := ladder server.ephBucketSeconds
    sizeBucketBytes := ladder server.sizeBucketBytes
    rendezvousDepositSizes := server.rendezvousDepositSizes.getD []
    rendezvousKinds := server.rendezvousKinds.getD 0 }

/-- A setting leaves a part of the configuration alone. -/
def Setting.Keeps {α : Type} (item : Setting) (get : Configuration → α) : Prop :=
  ∀ current value next, item.read current value = .ok next → get next = get current

section Keeps

variable {α : Type} {get : Configuration → α} {name : String}

theorem textSetting_keeps {field : Configuration → Bytes → Configuration}
    (h : ∀ c v, get (field c v) = get c) : (textSetting name field).Keeps get := by
  rintro current value _ ⟨⟩
  exact h current value

variable {field : Configuration → ℤ → Configuration}

theorem numberSetting_read {current next : Configuration}
    {value : Bytes} (h : (numberSetting name field).read current value = .ok next) :
    ∃ n, parseInt value = some n ∧ 0 ≤ n ∧ next = field current n := by
  unfold numberSetting at h
  dsimp only at h
  split at h
  · cases h
  next n hn =>
    split at h
    · cases h
    next hng =>
      cases h
      exact ⟨n, hn, Int.not_lt.mp hng, rfl⟩

theorem numberSetting_keeps
    (h : ∀ c v, get (field c v) = get c) : (numberSetting name field).Keeps get := by
  intro current value next hr
  obtain ⟨n, -, -, rfl⟩ := numberSetting_read hr
  exact h current n

theorem durationSetting_keeps {unit : ℤ}
    (h : ∀ c v, get (field c v) = get c) : (durationSetting name unit field).Keeps get := by
  intro current value next hr
  unfold durationSetting at hr
  dsimp only at hr
  split at hr
  · split at hr
    · cases hr
    · exact numberSetting_keeps h current value next hr
  · exact numberSetting_keeps h current value next hr

theorem choiceSetting_keeps {choices : List Bytes} {field : Configuration → Bytes → Configuration}
    (h : ∀ c v, get (field c v) = get c) : (choiceSetting name choices field).Keeps get := by
  intro current value next hr
  unfold choiceSetting at hr
  dsimp only at hr
  split at hr
  · cases hr
    exact h current value
  · cases hr

end Keeps

section Loaded

variable {file : Resource} {lookupEnvironment : Bytes → Option Bytes} {α : Type}
  {get : Configuration → α} {current next : Configuration}

theorem loadSetting_keeps {item : Setting} (h : item.Keeps get)
    (hl : loadSetting file lookupEnvironment current item = .ok next) :
    get next = get current := by
  have hr : ∀ {wrap : SettingError → LoadError} {current next : Configuration}
      {text : Option Bytes}, readInto item wrap current text = .ok next →
      get next = get current := by
    intro wrap current next text hr
    rcases readInto_eq_ok.mp hr with ⟨-, rfl⟩ | ⟨value, -, hv⟩
    · rfl
    · exact h _ _ _ hv
  rw [loadSetting, bind_eq_ok_iff] at hl
  obtain ⟨taken, hf, he⟩ := hl
  rw [hr he, hr hf]

theorem foldlM_keeps {items : List Setting} (h : ∀ item ∈ items, item.Keeps get)
    (hl : items.foldlM (loadSetting file lookupEnvironment) current = .ok next) :
    get next = get current := by
  induction items generalizing current with
  | nil =>
    cases hl
    rfl
  | cons item items ih =>
    rw [List.foldlM_cons, bind_eq_ok_iff] at hl
    obtain ⟨taken, hit, hi⟩ := hl
    rw [ih (fun other ho => h other (List.mem_cons_of_mem _ ho)) hi,
      loadSetting_keeps (h item List.mem_cons_self) hit]

/-- The number under a key: of the environment, else of the file, else the one it was. -/
def configured (file : Resource) (lookupEnvironment : Bytes → Option Bytes) (key : Bytes)
    (fallback : ℤ) : ℤ :=
  match lookupEnvironment (environmentNameOf key), file.lookup key with
  | some text, _ => (parseInt text).getD fallback
  | none, some text => (parseInt text).getD fallback
  | none, none => fallback

variable {field : Configuration → ℤ → Configuration} {name : String}

theorem loadSetting_number (get : Configuration → ℤ)
    (hld : loadSetting file lookupEnvironment current (numberSetting name field) = .ok next)
    (hg : ∀ c v, get (field c v) = v) (hc : 0 ≤ get current) :
    get next = configured file lookupEnvironment (ascii name) (get current) ∧ 0 ≤ get next := by
  rw [loadSetting, bind_eq_ok_iff] at hld
  obtain ⟨taken, hf, he⟩ := hld
  change readInto _ _ current (file.lookup (ascii name)) = _ at hf
  change readInto _ _ taken (lookupEnvironment (environmentNameOf (ascii name))) = _ at he
  have htk : 0 ≤ get taken ∧ ∀ text, file.lookup (ascii name) = some text →
      get taken = (parseInt text).getD (get current) := by
    rcases readInto_eq_ok.mp hf with ⟨hnn, rfl⟩ | ⟨text, ht, hr⟩
    · refine ⟨hc, fun text ht => ?_⟩
      cases hnn.symm.trans ht
    · obtain ⟨n, hn, hp, rfl⟩ := numberSetting_read hr
      rw [hg]
      refine ⟨hp, fun text' ht' => ?_⟩
      rw [← Option.some.inj (ht.symm.trans ht'), hn]
      rfl
  unfold configured
  rcases readInto_eq_ok.mp he with ⟨hnn, rfl⟩ | ⟨text, ht, hr⟩
  · rw [hnn]
    refine ⟨?_, htk.1⟩
    cases hl : file.lookup (ascii name) with
    | some text => exact htk.2 text hl
    | none =>
      rw [hl] at hf
      cases hf
      rfl
  · obtain ⟨n, hn, hp, rfl⟩ := numberSetting_read hr
    rw [ht, hg]
    dsimp only
    rw [hn]
    exact ⟨rfl, hp⟩

theorem loadSetting_number_keeps (get : Configuration → ℤ)
    (hl : loadSetting file lookupEnvironment current (numberSetting name field) = .ok next)
    (hg : ∀ c v, get (field c v) = get c) :
    get next = get current :=
  loadSetting_keeps (numberSetting_keeps hg) hl

def advertised (c : Configuration) : ℤ × ℤ × ℤ :=
  (c.readKeyWindowSeconds, c.durableTtlDefaultSeconds, c.durableTtlMaxSeconds)

theorem settings_keep : ∀ item ∈ settings.take 2 ++ settings.drop 5, item.Keeps advertised := by
  simp only [settings, List.take, List.drop, List.cons_append, List.nil_append,
    List.forall_mem_cons]
  refine ⟨textSetting_keeps fun _ _ => rfl, textSetting_keeps fun _ _ => rfl,
    numberSetting_keeps fun _ _ => rfl, numberSetting_keeps fun _ _ => rfl,
    numberSetting_keeps fun _ _ => rfl, numberSetting_keeps fun _ _ => rfl,
    numberSetting_keeps fun _ _ => rfl, textSetting_keeps fun _ _ => rfl,
    textSetting_keeps fun _ _ => rfl, textSetting_keeps fun _ _ => rfl,
    choiceSetting_keeps fun _ _ => rfl, durationSetting_keeps fun _ _ => rfl,
    numberSetting_keeps fun _ _ => rfl, durationSetting_keeps fun _ _ => rfl, ?_⟩
  exact nofun

theorem loaded_advertised {loaded : Configuration}
    (h : loadConfiguration file lookupEnvironment = .ok loaded) :
    loaded.readKeyWindowSeconds = configured file lookupEnvironment
        (ascii "read_key_window_seconds") 7776000 ∧
      loaded.durableTtlDefaultSeconds = configured file lookupEnvironment
        (ascii "durable_ttl_default_seconds") 31536000 ∧
      loaded.durableTtlMaxSeconds = configured file lookupEnvironment
        (ascii "durable_ttl_max_seconds") 0 ∧
      0 ≤ loaded.readKeyWindowSeconds ∧ 0 ≤ loaded.durableTtlDefaultSeconds ∧
      0 ≤ loaded.durableTtlMaxSeconds := by
  obtain ⟨hl, -⟩ := loadConfiguration_eq_ok.mp h
  have hs : settings = settings.take 2 ++
      numberSetting "read_key_window_seconds" (fun c v => { c with readKeyWindowSeconds := v }) ::
      numberSetting "durable_ttl_default_seconds"
        (fun c v => { c with durableTtlDefaultSeconds := v }) ::
      numberSetting "durable_ttl_max_seconds" (fun c v => { c with durableTtlMaxSeconds := v }) ::
      settings.drop 5 := rfl
  rw [hs, List.foldlM_append, bind_eq_ok_iff] at hl
  obtain ⟨first, hfr, hl⟩ := hl
  simp only [List.foldlM_cons, bind_eq_ok_iff] at hl
  obtain ⟨window, hw, fallback, hf, cap, hcp, hls⟩ := hl
  have hb : advertised first = advertised defaultConfiguration := foldlM_keeps
    (fun item hi => settings_keep item (List.mem_append_left _ hi)) hfr
  have ha : advertised loaded = advertised cap := foldlM_keeps
    (fun item hi => settings_keep item (List.mem_append_right _ hi)) hls
  simp only [advertised, defaultConfiguration, Prod.mk.injEq] at hb ha
  obtain ⟨hw₀, hf₀, hcp₀⟩ := hb
  obtain ⟨hw₁, hf₁, hcp₁⟩ := ha
  have hf₂ := loadSetting_number_keeps (·.durableTtlDefaultSeconds) hw fun _ _ => rfl
  have hf₃ := loadSetting_number_keeps (·.durableTtlDefaultSeconds) hcp fun _ _ => rfl
  have hcp₂ := loadSetting_number_keeps (·.durableTtlMaxSeconds) hw fun _ _ => rfl
  have hcp₃ := loadSetting_number_keeps (·.durableTtlMaxSeconds) hf fun _ _ => rfl
  have hw₂ := loadSetting_number_keeps (·.readKeyWindowSeconds) hf fun _ _ => rfl
  have hw₃ := loadSetting_number_keeps (·.readKeyWindowSeconds) hcp fun _ _ => rfl
  have hw₄ := loadSetting_number (·.readKeyWindowSeconds) hw fun _ _ => rfl
  have hf₄ := loadSetting_number (·.durableTtlDefaultSeconds) hf fun _ _ => rfl
  have hcp₄ := loadSetting_number (·.durableTtlMaxSeconds) hcp fun _ _ => rfl
  simp only [hw₀, hf₀, hcp₀, hw₂, hw₃, hf₂, hf₃, hcp₂, hcp₃] at hw₁ hf₁ hcp₁ hw₄ hf₄ hcp₄
  obtain ⟨hw, hwn⟩ := hw₄ (by decide)
  obtain ⟨hf, hfl⟩ := hf₄ (by decide)
  obtain ⟨hcp, hc⟩ := hcp₄ (by decide)
  rw [hw₁, hf₁, hcp₁]
  exact ⟨hw, hf, hcp, hwn, hfl, hc⟩

theorem uint32_iff {n : ℤ} (hp : 0 ≤ n) :
    (uint32 n : ℤ) = n ∧ uint32 n ≠ durableIndefinite ↔ n < durableIndefinite := by
  unfold uint32 durableIndefinite
  omega

end Loaded

/-- The numbers that are enforced and advertised are those that the configuration holds; a cap is
not lost, and none of them stands for an indefinite time. -/
structure AsConfigured (loaded : Configuration) (limits : Limits) (capabilities : Capabilities) :
    Prop where
  fallback : (limits.durableTtlDefaultSeconds : ℤ) = loaded.durableTtlDefaultSeconds
  cap : (limits.durableTtlMaxSeconds : ℤ) = loaded.durableTtlMaxSeconds
  advertisedFallback : (capabilities.durableTtlDefaultSeconds : ℤ) = loaded.durableTtlDefaultSeconds
  advertisedCap : (capabilities.durableTtlMaxSeconds : ℤ) = loaded.durableTtlMaxSeconds
  advertisedWindow : (capabilities.readKeyWindowSeconds : ℤ) = loaded.readKeyWindowSeconds
  capped : loaded.durableTtlMaxSeconds ≠ 0 → limits.durableTtlMaxSeconds ≠ 0
  finiteFallback : limits.durableTtlDefaultSeconds ≠ durableIndefinite
  finiteCap : limits.durableTtlMaxSeconds ≠ durableIndefinite
  finiteWindow : capabilities.readKeyWindowSeconds ≠ durableIndefinite

/--
What is enforced and advertised is what is configured, exactly when the configured numbers are below
the one for an indefinite time.
-/
theorem configured_is_advertised (file : Resource) (lookupEnvironment : Bytes → Option Bytes)
    (loaded : Configuration) (server : Server)
    (hload : loadConfiguration file lookupEnvironment = .ok loaded) :
    (loaded.readKeyWindowSeconds = configured file lookupEnvironment
        (ascii "read_key_window_seconds") 7776000 ∧
      loaded.durableTtlDefaultSeconds = configured file lookupEnvironment
        (ascii "durable_ttl_default_seconds") 31536000 ∧
      loaded.durableTtlMaxSeconds = configured file lookupEnvironment
        (ascii "durable_ttl_max_seconds") 0) ∧
    (AsConfigured loaded (limitsOf loaded) { server with config := loaded }.capabilities ↔
      loaded.readKeyWindowSeconds < durableIndefinite ∧
      loaded.durableTtlDefaultSeconds < durableIndefinite ∧
      loaded.durableTtlMaxSeconds < durableIndefinite) := by
  obtain ⟨hw, hfl, hca, hwn, hfb, hcp⟩ := loaded_advertised hload
  refine ⟨⟨hw, hfl, hca⟩, fun h => ⟨(uint32_iff hwn).mp ⟨h.advertisedWindow, h.finiteWindow⟩,
    (uint32_iff hfb).mp ⟨h.fallback, h.finiteFallback⟩,
    (uint32_iff hcp).mp ⟨h.cap, h.finiteCap⟩⟩, ?_⟩
  rintro ⟨hww, hfc, hcl⟩
  obtain ⟨hwd, hwi⟩ := (uint32_iff hwn).mpr hww
  obtain ⟨hf, hfk⟩ := (uint32_iff hfb).mpr hfc
  obtain ⟨hc, hcn⟩ := (uint32_iff hcp).mpr hcl
  refine ⟨hf, hc, hf, hc, hwd, fun hne hz => hne ?_, hfk, hcn, hwi⟩
  rw [← hc]
  exact congrArg Nat.cast hz

namespace Sample

def capped (text : String) : Resource :=
  (Resource.empty "message.yml").add (ascii "durable_ttl_max_seconds") (ascii text)

def daily (name : Bytes) : Option Bytes :=
  if name = environmentNameOf (ascii "durable_ttl_max_seconds") then some (ascii "86400") else none

def withCap (seconds : ℤ) : Configuration :=
  { defaultConfiguration with durableTtlMaxSeconds := seconds }

end Sample

open Sample

/-- A cap of a day is enforced as such, also where the file asks for more than it can. -/
theorem configured_is_advertised_day :
    loadConfiguration (capped "4294967296") daily = .ok (withCap 86400) ∧
    ((limitsOf (withCap 86400)).durableTtlMaxSeconds : ℤ) = 86400 := by
  have hl : loadConfiguration (capped "4294967296") daily = .ok (withCap 86400) := rfl
  have h := (configured_is_advertised _ _ _ ⟨defaultConfiguration, fun _ => -1, fun _ => -1,
    none, none⟩ hl).2.mpr ⟨by decide, by decide, by decide⟩
  exact ⟨hl, h.cap⟩

/-- A cap of 2^32 seconds is enforced as none, and one of a second less as an indefinite time. -/
theorem configured_cap_lost :
    loadConfiguration (capped "4294967296") (fun _ => none) = .ok (withCap 4294967296) ∧
    (limitsOf (withCap 4294967296)).durableTtlMaxSeconds = 0 ∧
    loadConfiguration (capped "4294967295") (fun _ => none) = .ok (withCap 4294967295) ∧
    (limitsOf (withCap 4294967295)).durableTtlMaxSeconds = durableIndefinite :=
  ⟨rfl, rfl, rfl, rfl⟩

end MessageServer.Cmd
