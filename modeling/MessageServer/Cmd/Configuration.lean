import Mathlib.Algebra.Ring.Int.Defs
import MessageServer.Cmd.Resource
import MessageServer.Store.Retention

/-! # The configuration

The values that a process runs on are read by a table of settings, each out of
the file and then out of the environment, into its own field. A key of the file
that no setting has is refused.
-/

namespace MessageServer.Cmd

def ascii (text : String) : Bytes := text.toList.map fun c => UInt8.ofNat c.toNat

structure Configuration where
  operatorHost : Bytes
  hostingJurisdiction : Bytes
  readKeyWindowSeconds : ℤ
  durableTtlDefaultSeconds : ℤ
  durableTtlMaxSeconds : ℤ
  rendezvousTtlSeconds : ℤ
  rendezvousDepositTtlSeconds : ℤ
  rendezvousMailboxDepth : ℤ
  cardTombstoneSeconds : ℤ
  diagnosticSessionMaxMinutes : ℤ
  endpointListenAddress : Bytes
  endpointCertificateFile : Bytes
  endpointPrivateKeyFile : Bytes
  platformAttachment : Bytes
  linkBoxTtlSeconds : ℤ
  linkBoxLiveCap : ℤ
  rejectFloorMs : ℤ
  deriving DecidableEq

def defaultConfiguration : Configuration where
  operatorHost := []
  hostingJurisdiction := []
  readKeyWindowSeconds := 7776000
  durableTtlDefaultSeconds := 31536000
  durableTtlMaxSeconds := 0
  rendezvousTtlSeconds := 7776000
  rendezvousDepositTtlSeconds := 604800
  rendezvousMailboxDepth := 16
  cardTombstoneSeconds := 7776000
  diagnosticSessionMaxMinutes := 60
  endpointListenAddress := []
  endpointCertificateFile := []
  endpointPrivateKeyFile := []
  platformAttachment := ascii "on"
  linkBoxTtlSeconds := 600
  linkBoxLiveCap := 10000
  rejectFloorMs := 0

inductive SettingError
  | notAnInteger | negative | tooLong
  | notAChoice (choices : List Bytes)
  deriving DecidableEq

structure Setting where
  name : Bytes
  read : Configuration → Bytes → Except SettingError Configuration

def parseDigits : ℕ → Bytes → Option ℕ
  | n, [] => some n
  | n, b :: rest =>
    if 0x30 ≤ b ∧ b ≤ 0x39 then parseDigits (10 * n + (b.toNat - 0x30)) rest else none

def parseUint (text : Bytes) : Option ℕ :=
  if text = [] then none else (parseDigits 0 text).filter fun n => n < 2 ^ 64

def parseInt (text : Bytes) : Option ℤ :=
  let digits := if text.head? = some dash ∨ text.head? = some 0x2B then text.tail else text
  (parseUint digits).bind fun n =>
    if text.head? = some dash then (if 2 ^ 63 < n then none else some (-(n : ℤ)))
    else if 2 ^ 63 ≤ n then none
    else some n

def maxInt64 : ℤ := 9223372036854775807

def textSetting (name : String) (field : Configuration → Bytes → Configuration) : Setting where
  name := ascii name
  read target value := .ok (field target value)

def numberSetting (name : String) (field : Configuration → ℤ → Configuration) : Setting where
  name := ascii name
  read target value :=
    match parseInt value with
    | none => .error .notAnInteger
    | some parsed => if parsed < 0 then .error .negative else .ok (field target parsed)

def durationSetting (name : String) (unit : ℤ) (field : Configuration → ℤ → Configuration) :
    Setting where
  name := ascii name
  read target value :=
    match parseInt value with
    | some parsed =>
      if maxInt64 / unit < parsed then .error .tooLong
      else (numberSetting name field).read target value
    | none => (numberSetting name field).read target value

def choiceSetting (name : String) (choices : List Bytes)
    (field : Configuration → Bytes → Configuration) : Setting where
  name := ascii name
  read target value :=
    if value ∈ choices then .ok (field target value) else .error (.notAChoice choices)

def platformAttachmentValues : List Bytes := [ascii "on", ascii "off"]

def second : ℤ := 1000000000
def millisecond : ℤ := 1000000

def settings : List Setting :=
  [textSetting "operator_host" fun c v => { c with operatorHost := v },
    textSetting "hosting_jurisdiction" fun c v => { c with hostingJurisdiction := v },
    numberSetting "read_key_window_seconds" fun c v => { c with readKeyWindowSeconds := v },
    numberSetting "durable_ttl_default_seconds" fun c v => { c with durableTtlDefaultSeconds := v },
    numberSetting "durable_ttl_max_seconds" fun c v => { c with durableTtlMaxSeconds := v },
    numberSetting "rendezvous_ttl_seconds" fun c v => { c with rendezvousTtlSeconds := v },
    numberSetting "rendezvous_deposit_ttl_seconds" fun c v =>
      { c with rendezvousDepositTtlSeconds := v },
    numberSetting "rendezvous_mailbox_depth" fun c v => { c with rendezvousMailboxDepth := v },
    numberSetting "card_tombstone_seconds" fun c v => { c with cardTombstoneSeconds := v },
    numberSetting "diagnostic_session_max_minutes" fun c v =>
      { c with diagnosticSessionMaxMinutes := v },
    textSetting "endpoint_listen_address" fun c v => { c with endpointListenAddress := v },
    textSetting "endpoint_tls_certificate_file" fun c v => { c with endpointCertificateFile := v },
    textSetting "endpoint_tls_private_key_file" fun c v => { c with endpointPrivateKeyFile := v },
    choiceSetting "platform_attachment" platformAttachmentValues fun c v =>
      { c with platformAttachment := v },
    durationSetting "link_box_ttl_seconds" second fun c v => { c with linkBoxTtlSeconds := v },
    numberSetting "link_box_live_cap" fun c v => { c with linkBoxLiveCap := v },
    durationSetting "reject_floor_ms" millisecond fun c v => { c with rejectFloorMs := v }]

def environmentNameOf (key : Bytes) : Bytes :=
  ascii "URMESSAGE_" ++ key.map fun b =>
    if b = 0x2E ∨ b = dash then 0x5F else if 0x61 ≤ b ∧ b ≤ 0x7A then b - 0x20 else b

inductive LoadError
  | file (path : String) (name : Bytes) (error : SettingError)
  | environment (source name : Bytes) (error : SettingError)
  | unknown (path : String) (names : List Bytes)

def readInto (item : Setting) (wrap : SettingError → LoadError) (loaded : Configuration) :
    Option Bytes → Except LoadError Configuration
  | none => .ok loaded
  | some value =>
    match item.read loaded value with
    | .error e => .error (wrap e)
    | .ok next => .ok next

def loadSetting (file : Resource) (lookupEnvironment : Bytes → Option Bytes)
    (loaded : Configuration) (item : Setting) : Except LoadError Configuration := do
  let loaded ← readInto item (.file file.path item.name) loaded (file.lookup item.name)
  readInto item (.environment (environmentNameOf item.name) item.name) loaded
    (lookupEnvironment (environmentNameOf item.name))

def loadConfiguration (file : Resource) (lookupEnvironment : Bytes → Option Bytes) :
    Except LoadError Configuration := do
  let loaded ← settings.foldlM (loadSetting file lookupEnvironment) defaultConfiguration
  let unknown := file.unread fun name => settings.any (·.name = name)
  failIf (unknown ≠ []) (.unknown file.path unknown)
  return loaded

section Loading

variable {file : Resource} {lookupEnvironment : Bytes → Option Bytes} {loaded : Configuration}

variable {item : Setting}

theorem readInto_eq_ok {wrap : SettingError → LoadError} {current next : Configuration}
    {text : Option Bytes} :
    readInto item wrap current text = .ok next ↔ text = none ∧ current = next ∨
        ∃ value, text = some value ∧ item.read current value = .ok next := by
  cases text with
  | none => simp [readInto]
  | some value => cases hr : item.read current value <;> simp [readInto, hr]

theorem loadConfiguration_eq_ok : loadConfiguration file lookupEnvironment = .ok loaded ↔
    settings.foldlM (loadSetting file lookupEnvironment) defaultConfiguration = .ok loaded ∧
      ∀ name ∈ file.order, ∃ item ∈ settings, item.name = name := by
  have hu : ∀ known : Bytes → Bool,
      ¬ file.unread known ≠ [] ↔ ∀ name ∈ file.order, known name = true := by
    intro known
    rw [not_not, Resource.unread, List.filter_eq_nil_iff]
    simp
  simp only [loadConfiguration, bind_eq_ok_iff, failIf_eq_ok, hu, List.any_eq_true,
    decide_eq_true_eq]
  constructor
  · rintro ⟨_, hl, _, hk, ⟨⟩⟩
    exact ⟨hl, hk⟩
  · rintro ⟨hl, hk⟩
    exact ⟨loaded, hl, (), hk, rfl⟩

end Loading

namespace Sample

def host : Writing := ⟨ascii "operator_host", ascii "ur.network", some doubleQuote⟩

def written : List Writing :=
  [host, ⟨ascii "card_tombstone_seconds", ascii "60", none⟩,
    ⟨ascii "endpoint_listen_address", ascii ":7300", some singleQuote⟩]

def file : Bytes := written.flatMap fun w => w.line ++ [lf]

end Sample

open Sample

end MessageServer.Cmd
