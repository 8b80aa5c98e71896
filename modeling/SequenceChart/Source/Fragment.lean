import SequenceChart.Settings.Layer
import SequenceChart.Text.Search

/-!
# Fragments

Settings that a source text carries, cleaned of what a source must not set, and the layers that
they make.
-/

namespace SequenceChart

namespace Json

/-- Text that could smuggle markup or data into a page. -/
def isBlockedText (value : String) : Bool :=
  let text := value.toList
  text.contains '<' || text.contains '>' || occursIn "url(data:".toList text

def isPrivateKey (key : String) : Bool :=
  "__".toList.isPrefixOf key.toList

end Json

/-- Drops the entries a source must not set. The last entry takes the place of `secure`. -/
def Entries.dropReserved (entries : Entries) : Entries :=
  (entries.swapRemove "secure").filter fun entry => !Json.isPrivateKey entry.1

namespace Json

mutual

/-- The value without reserved entries and without the contents of blocked texts. -/
def sanitize : Json → Json
  | object entries => object (Entries.dropReserved (sanitizeEntries entries))
  | array elements => array (sanitizeElements elements)
  | string value => string (if isBlockedText value then "" else value)
  | null => null
  | bool value => bool value
  | number value => number value

def sanitizeElements : List Json → List Json
  | [] => []
  | element :: rest => element.sanitize :: sanitizeElements rest

def sanitizeEntries : List (String × Json) → List (String × Json)
  | [] => []
  | (key, value) :: rest => (key, value.sanitize) :: sanitizeEntries rest

end

end Json

def Entries.sanitize (entries : Entries) : Entries :=
  Entries.dropReserved (Json.sanitizeEntries entries)

inductive FragmentKind
  | init
  | config
  deriving DecidableEq, Repr

def FragmentKind.name : FragmentKind → String
  | init => "init"
  | config => "config"

structure Fragment where
  kind : FragmentKind
  entries : Entries

namespace Settings

def applyFragment (settings : Settings Float) (fragment : Fragment) :
    Settings Float × Option SettingError :=
  match fragment.kind with
  | .init => settings.applyInit fragment.entries
  | .config => settings.applyConfig fragment.entries

/-- Later fragments win, key by key. -/
def applyFragments (settings : Settings Float) (fragments : List Fragment) :
    Settings Float × Option SettingError :=
  runSteps applyFragment settings fragments

end Settings

end SequenceChart
