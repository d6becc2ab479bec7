import UrlRouting.Data.Json
import UrlRouting.Encoding
import UrlRouting.Error

/-!
Settings: where dispatch trees are stored, how paths are encoded, and what absolute URLs begin with.
Every setting has a default.
-/

namespace UrlRouting

structure Config where
  cacheKey : String := "routes-cache"
  enableCache : Bool := true
  saveToFile : Bool := false
  cachePath : String := "runtime/routes-cache.json"
  encodeRaw : Bool := true
  scheme : Option String := none
  host : Option String := none
  deriving DecidableEq, Inhabited

namespace Config

def default : Config := {}

def encoding (config : Config) : Encoding :=
  if config.encodeRaw then .raw else .legacy

def isScheme (text : String) : Bool :=
  text.toList.head?.any Char.isAlpha &&
    text.toList.all fun character =>
      character.isAlphanum || character == '+' || character == '-' || character == '.'

def validate (config : Config) : Except ConfigError Unit := do
  if config.cacheKey = "" then
    throw .emptyCacheKey
  if config.saveToFile ∧ config.cachePath = "" then
    throw .emptyCachePath
  match config.scheme.filter (!isScheme ·) with
  | some scheme => throw (.invalidScheme scheme)
  | none => pure ()
  if config.host = some "" then
    throw .emptyHost

def fieldNames : List String :=
  ["cache_key", "enable_cache", "save_to_file", "cache_path", "encode_raw", "scheme", "host"]

def toData (config : Config) : Data :=
  let optional (value : Option String) : Data := (value.map .text).getD .null
  .map [
    (.text "cache_key", .text config.cacheKey),
    (.text "enable_cache", .bool config.enableCache),
    (.text "save_to_file", .bool config.saveToFile),
    (.text "cache_path", .text config.cachePath),
    (.text "encode_raw", .bool config.encodeRaw),
    (.text "scheme", optional config.scheme),
    (.text "host", optional config.host)]

def read : Data.Reader Config :=
  Data.within fun counting depth data => do
    let fields ← Data.readFields fieldNames counting depth data
    let cacheKey ← fields.withDefault "cache_key" Data.readText default.cacheKey
    let enableCache ← fields.withDefault "enable_cache" Data.readBool default.enableCache
    let saveToFile ← fields.withDefault "save_to_file" Data.readBool default.saveToFile
    let cachePath ← fields.withDefault "cache_path" Data.readText default.cachePath
    let encodeRaw ← fields.withDefault "encode_raw" Data.readBool default.encodeRaw
    let scheme ← fields.withDefault "scheme" (Data.readOption Data.readText) none
    let host ← fields.withDefault "host" (Data.readOption Data.readText) none
    return { cacheKey, enableCache, saveToFile, cachePath, encodeRaw, scheme, host }

def ofFileText : Option String → Except ConfigError Config
  | none => .error .unreadableConfig
  | some text =>
      match Json.readAs read text with
      | none => .error .malformedConfig
      | some config => .ok config

end Config

end UrlRouting
