import HarborHF.Async.Crashes
import HarborHF.Encodings.ConfigFile
import Mathlib.Data.List.Sort
import Mathlib.Data.List.Lex

/-!
# The token store

Tokens are kept in one configuration file, a section for each, which is replaced as a whole. The
directory and its locks are the environment: a call may fail before the file is replaced, or after.
The limits are checked in different places. Saving a whole map checks their number and storing one
more does not; reading the file does.
-/

set_option autoImplicit false

namespace HarborHF.TokenStore

open Async CodePoints ConfigFile Relational

/-- Tokens by their names. -/
abbrev Tokens : Type := Dict Text Text

def maxTokenStoreBytes : ℕ := 1024 * 1024

def maxTokenCount : ℕ := 256

def maxTokenBytes : ℕ := 16 * 1024

/-- The errors of a value, of an encoding and of the system. -/
inductive StoreError
  | value (message : String)
  | alreadySaved (name : Text)
  | notSaved (name : Text)
  | otherFields (name : Text)
  | unreadable (error : ConfigError)
  | notEncodable
  | system
  deriving DecidableEq

def isControl (code : CodePoint) : Bool := decide (code.val < 32 ∨ code.val = 127)

/-- `_validate_token_name`. -/
def validateTokenName (name : Text) : Except StoreError Unit :=
  if name = [] ∨ name ≠ strip name then
    .error (.value "Harbor HF token name must be nonempty without outer whitespace")
  else if 256 < name.length then
    .error (.value "Harbor HF token name exceeds the 256-character limit")
  else if name = defaultSection then .error (.value "Harbor HF token name cannot be DEFAULT")
  else if name.any isControl then
    .error (.value "Harbor HF token name cannot contain control characters")
  else .ok ()

/-- `_validate_token_value`. -/
def validateTokenValue (token : Text) : Except StoreError Unit :=
  if token = [] ∨ token ≠ strip token then
    .error (.value "Harbor HF token value must be nonempty without whitespace")
  else
    match encode token with
    | none => .error .notEncodable
    | some octets =>
      if maxTokenBytes < octets.size then
        .error (.value "Harbor HF token value exceeds the 16 KiB limit")
      else if token.any isControl then
        .error (.value "Harbor HF token value cannot contain control characters")
      else .ok ()

def hfToken : Text := text "hf_token"

/-- The token of a section. -/
def readToken (name : Text) (options : Dict Text Text) : Except StoreError (Text × Text) := do
  validateTokenName name
  match options with
  | [(option, token)] =>
    if option ≠ hfToken then .error (.otherFields name)
    else do
      validateTokenValue token
      return (name, token)
  | _ => .error (.otherFields name)

/-- `_parse_token_store`. -/
def parseTokenStore (payload : ByteArray) : Except StoreError Tokens :=
  match decode payload with
  | none => .error (.value "not UTF-8")
  | some content =>
    match readString content with
    | .error error => .error (.unreadable error)
    | .ok config =>
      if config.defaults ≠ [] then .error (.value "DEFAULT values are forbidden")
      else if maxTokenCount < config.sections.length then
        .error (.value "Harbor HF token store exceeds the 256-token limit")
      else config.sections.mapM fun section' ↦ readToken section'.1 section'.2

/-- `load_harbor_hf_tokens`. -/
def loadHarborHfTokens : Option ByteArray → Except StoreError Tokens
  | none => .ok []
  | some payload =>
    if maxTokenStoreBytes < payload.size then
      .error (.value "Harbor HF token store exceeds the 1 MiB limit")
    else parseTokenStore payload

/-- Tokens by their sorted names. -/
def sortedTokens (tokens : Tokens) : Tokens :=
  tokens.insertionSort fun first second ↦ first.1 ≤ second.1

/-- What is written for some tokens. -/
def encodeTokens (tokens : Tokens) : Except StoreError ByteArray :=
  match encode (write (singleSections hfToken (sortedTokens tokens))) with
  | none => .error .notEncodable
  | some payload =>
    if maxTokenStoreBytes < payload.size then
      .error (.value "Harbor HF token store exceeds the 1 MiB limit")
    else .ok payload

/-- `_validated_tokens`. -/
def validatedTokens (tokens : Tokens) : Except StoreError Tokens :=
  if maxTokenCount < tokens.length then
    .error (.value "Harbor HF token store exceeds the 256-token limit")
  else do
    tokens.forM fun entry ↦ do
      validateTokenName entry.1
      validateTokenValue entry.2
    return tokens

/-! ### Calls -/

/-- How a call fares with the system: it may fail before it replaces the file, or after. -/
inductive Fault
  | none | before | after
  deriving DecidableEq

abbrev Act : Type → Type := Procedure (Option ByteArray) StoreError

/-- `_save_harbor_hf_tokens_unlocked`. -/
def saveUnlocked (fault : Fault) (tokens : Tokens) : Act Unit := do
  let payload ← Procedure.ofExcept (encodeTokens tokens)
  if fault = .before then Procedure.raise .system
  else do
    Procedure.modify fun _ ↦ some payload
    if fault = .after then Procedure.raise .system else return ()

/-- `save_harbor_hf_tokens`. -/
def saveHarborHfTokens (fault : Fault) (tokens : Tokens) : Act Unit := do
  let normalized ← Procedure.ofExcept (validatedTokens tokens)
  saveUnlocked fault normalized

/-- `store_harbor_hf_token`. -/
def storeHarborHfToken (fault : Fault) (name token : Text) (replace : Bool) : Act Unit := do
  let _ ← Procedure.ofExcept (validateTokenName name)
  let _ ← Procedure.ofExcept (validateTokenValue token)
  let file ← Procedure.fetch
  let tokens ← Procedure.ofExcept (loadHarborHfTokens file)
  if (tokens.get? name).isSome ∧ replace = false then Procedure.raise (.alreadySaved name)
  else saveUnlocked fault (tokens.set name token)

/-- `remove_harbor_hf_token`. -/
def removeHarborHfToken (fault : Fault) (name : Text) : Act Unit := do
  let _ ← Procedure.ofExcept (validateTokenName name)
  let file ← Procedure.fetch
  let tokens ← Procedure.ofExcept (loadHarborHfTokens file)
  if tokens.get? name = none then Procedure.raise (.notSaved name)
  else saveUnlocked fault (tokens.erase name)

inductive Call
  | save (tokens : Tokens) (nodup : tokens.keys.Nodup)
  | store (name token : Text) (replace : Bool)
  | remove (name : Text)

def Call.act (fault : Fault) : Call → Act Unit
  | save tokens _ => saveHarborHfTokens fault tokens
  | store name token replace => storeHarborHfToken fault name token replace
  | remove name => removeHarborHfToken fault name

/-- The tokens after a call that succeeds. -/
def Call.applied (tokens : Tokens) : Call → Tokens
  | save others _ => others
  | store name token _ => tokens.set name token
  | remove name => tokens.erase name

end HarborHF.TokenStore
