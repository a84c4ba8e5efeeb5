import Pagewright.Settings
import Pagewright.Yaml.Read

set_option autoImplicit false

namespace Pagewright

namespace Yaml

/-- A text is any scalar as it is written. -/
def text? : Yaml → Option String
  | .scalar _ text => some text
  | _ => none

def bool? : Yaml → Option Bool
  | .scalar true text =>
    if text ∈ ["true", "True", "TRUE"] then some true
    else if text ∈ ["false", "False", "FALSE"] then some false
    else none
  | _ => none

/-- A natural number without a sign: hexadecimal, octal or binary behind a mark, otherwise decimal
without leading zeros. -/
def unsigned? : List Char → Option Nat
  | '0' :: 'x' :: digits => number? 16 digits
  | '0' :: 'o' :: digits => number? 8 digits
  | '0' :: 'b' :: digits => number? 2 digits
  | ['0'] => some 0
  | '0' :: _ => none
  | digits => number? 10 digits

/-- A size: an unsigned number of 32 bits, a plus sign allowed before it. -/
def size? : Yaml → Option UInt32
  | .scalar true text => do
    let value ← match text.toList with
      | '+' :: rest => unsigned? rest
      | rest => unsigned? rest
    if value < UInt32.size then some (UInt32.ofNat value) else none
  | _ => none

/-- How a setting of a known key changes a record, by key. -/
abbrev Setters (α : Type) : Type := String → Option (Yaml → α → Option α)

/-- Applies the entries of a mapping in order. Unknown keys are ignored, a known key may stand
once. -/
def applyEntries {α : Type} (setters : Setters α) (seen : List String) (record : α) :
    List (Yaml × Yaml) → Option α
  | [] => some record
  | (key, value) :: rest => do
    let key ← key.text?
    match setters key with
    | none => applyEntries setters seen record rest
    | some set =>
      if seen.contains key then
        none
      else
        let record ← set value record
        applyEntries setters (key :: seen) record rest

/-- A record from its defaults and a mapping. Where nothing is written the defaults stay. -/
def record? {α : Type} (setters : Setters α) (defaults : α) : Yaml → Option α
  | .scalar true "" => some defaults
  | .mapping entries => applyEntries setters [] defaults entries
  | _ => none

end Yaml

def Store.setters : Yaml.Setters Store
  | "script_url" => some fun value store => do some { store with scriptUrl := ← value.text? }
  | "wasm_base" => some fun value store => do some { store with wasmBase := ← value.text? }
  | _ => none

def Style.setters : Yaml.Setters Style
  | "font_family" => some fun value style => do some { style with fontFamily := ← value.text? }
  | "padding_px" => some fun value style => do some { style with padding := ← value.size? }
  | "gap_px" => some fun value style => do some { style with gap := ← value.size? }
  | _ => none

def Settings.setters : Yaml.Setters Settings
  | "strict" => some fun value settings => do some { settings with strict := ← value.bool? }
  | "check_tables" =>
    some fun value settings => do some { settings with checkTables := ← value.bool? }
  | "update_placeholder" =>
    some fun value settings => do some { settings with updatePlaceholder := ← value.text? }
  | "output" => some fun value settings => do some { settings with output := ← value.text? }
  | "store" => some fun value settings => do
    some { settings with store := ← value.record? Store.setters {} }
  | "style" => some fun value settings => do
    some { settings with style := ← value.record? Style.setters {} }
  | _ => none

/-- The settings that a document gives. -/
def Settings.read? (text : String) : Option Settings := do
  (← Yaml.read? text).record? Settings.setters {}

end Pagewright
