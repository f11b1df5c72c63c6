import VaultSearch.Number.Decimal
import VaultSearch.Number.Literal
import VaultSearch.Table
import VaultSearch.Text.Case
import VaultSearch.Text.Path

namespace VaultSearch

open Text Number

abbrev Environment := Table Text Text

structure Config where
  root : Path
  listenPort : Int
  savedPath : Path
  threshold : Binary64
  defaultLimit : Int
  syncInterval : Int
  strict : Bool

inductive SettingFault
  | literal (e : LiteralError)
  | listenPort (n : Int)
  | threshold (x : Binary64)
  | limit (n : Int)
  | interval (n : Int)

def intervalFault (n : Int) : Text := "Sync interval must be >= 0, got ".toList ++ .ofInt n

def SettingFault.message : SettingFault → Text
  | literal e => e.message
  | listenPort n => "Port must be between 1 and 65535, got ".toList ++ .ofInt n
  | threshold x => "Threshold must be between 0 and 1, got ".toList ++ x.text
  | limit n => "Limit must be positive, got ".toList ++ .ofInt n
  | interval n => intervalFault n

inductive ConfigError
  | noHome
  | setting (name value : Text) (fault : SettingFault)

def ConfigError.message : ConfigError → Text
  | noHome => "Could not determine home directory.".toList
  | setting name value fault =>
    "Invalid ".toList ++ name ++ " value '".toList ++ value ++ "': ".toList ++ fault.message

/-- A tilde as first component stands for the home directory; homes of others are not known. -/
def Text.Path.expandHome (home : Option Text) (p : Path) : Except ConfigError Path :=
  match p.root, p.components with
  | [], ('~' :: user) :: rest =>
    match user, home with
    | [], some home =>
      if home.head? = some '~' then .error .noHome
      else
        let home := trimEnd (· == '/') home
        .ok ((Path.read (if home.isEmpty then ['/'] else home)).append ⟨[], rest⟩)
    | _, _ => .error .noHome
  | _, _ => .ok p

namespace Config

def variableNames : List Text :=
  ["HOME".toList, "NOTESEARCH_ROOT".toList, "NOTESEARCH_PORT".toList, "NOTESEARCH_SAVED".toList,
    "NOTESEARCH_FUZZY_THRESHOLD".toList, "NOTESEARCH_DEFAULT_LIMIT".toList,
    "NOTESEARCH_SYNC_INTERVAL".toList, "NOTESEARCH_STRICT_FILTERS".toList]

def readSetting {α : Type} (env : Environment) (name default : Text)
    (read : Text → Except LiteralError α) (check : α → Option SettingFault) : Except ConfigError α :=
  let value := (env.get? name).getD default
  match read value with
  | .error e => .error (.setting name value (.literal e))
  | .ok x => match check x with
    | some fault => .error (.setting name value fault)
    | none => .ok x

def checkPort (n : Int) : Option SettingFault :=
  if 1 ≤ n && n ≤ 65535 then none else some (.listenPort n)

def checkThreshold (x : Binary64) : Option SettingFault :=
  if (Binary64.finite 0).le x && x.le (.finite 1) then none else some (.threshold x)

def checkLimit (n : Int) : Option SettingFault := if n ≤ 0 then some (.limit n) else none

def checkInterval (n : Int) : Option SettingFault := if n < 0 then some (.interval n) else none

def isYes (t : Text) : Bool :=
  let t := lower (trim t)
  t = ['1'] || t = "true".toList || t = "yes".toList

def defaultSaved (root : Path) : Path :=
  root.append ⟨[], [".notesearch".toList, "saved-searches.yaml".toList]⟩

def ofEnvironment (env : Environment) : Except ConfigError Config := do
  let home := env.get? "HOME".toList
  let notes ← Path.expandHome home ⟨[], [['~'], "notes".toList]⟩
  let root ← Path.expandHome home (((env.get? "NOTESEARCH_ROOT".toList).map Path.read).getD notes)
  let listenPort ← readSetting env "NOTESEARCH_PORT".toList "8080".toList readInt checkPort
  let saved ← Path.expandHome home
    (((env.get? "NOTESEARCH_SAVED".toList).map Path.read).getD (defaultSaved root))
  let threshold ←
    readSetting env "NOTESEARCH_FUZZY_THRESHOLD".toList "0.7".toList readFloat checkThreshold
  let limit ← readSetting env "NOTESEARCH_DEFAULT_LIMIT".toList "50".toList readInt checkLimit
  let interval ← readSetting env "NOTESEARCH_SYNC_INTERVAL".toList "30".toList readInt checkInterval
  .ok {
    root := root
    listenPort := listenPort
    savedPath := saved
    threshold := threshold
    defaultLimit := limit
    syncInterval := interval
    strict := isYes ((env.get? "NOTESEARCH_STRICT_FILTERS".toList).getD []) }

def cached (held : Option Config) (env : Environment) :
    Option Config × Except ConfigError Config :=
  match held with
  | some c => (held, .ok c)
  | none => match ofEnvironment env with
    | .ok c => (some c, .ok c)
    | .error e => (none, .error e)

end Config

end VaultSearch
