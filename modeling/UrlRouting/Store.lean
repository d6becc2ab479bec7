import UrlRouting.Config
import UrlRouting.Data.Json
import UrlRouting.Data.MessagePack
import UrlRouting.Dispatch

/-!
Storing dispatch sets: as a binary blob in a key-value cache, or as a JSON file. What a cache or a
file system does is not known here, so both are given by their operations, which run in any monad.
Loading never fails: what cannot be read counts as not stored. Saving never fails either.
-/

namespace UrlRouting

namespace DispatchSet

def encode (set : DispatchSet) : List UInt8 :=
  MessagePack.encode set.toData

def decode? (blob : List UInt8) : Option DispatchSet :=
  MessagePack.readAs read blob

def print (set : DispatchSet) : String :=
  Json.print set.toData

def parse? (text : String) : Option DispatchSet :=
  Json.readAs read text

end DispatchSet

structure Cache (m : Type → Type) where
  has : String → m (Except RoutingError Bool)
  get : String → m (Except RoutingError (Option (List UInt8)))
  set : String → List UInt8 → m (Except RoutingError Unit)

/-- A file system. Reading gives nothing where there is no readable text; writing makes the
directories that are missing and tells whether it succeeded. -/
structure Files (m : Type → Type) where
  isFile : String → m Bool
  read : String → m (Option String)
  write : String → String → m Bool

abbrev MemoryCache := Table (List UInt8)

namespace MemoryCache

def operations : Cache (StateM MemoryCache) where
  has key := fun cache => (.ok (cache.contains key), cache)
  get key := fun cache => (.ok (cache.get? key), cache)
  set key blob := fun cache => (.ok (), cache.set key blob)

end MemoryCache

inductive Store (m : Type → Type)
  | keyValue (cache : Cache m) (key : String)
  | file (files : Files m) (path : String)

namespace Store

variable {m : Type → Type}

/-- The store that settings ask for: a file if they say so, else the cache if there is one and it is
enabled. -/
def ofConfig (config : Config) (files : Files m) (cache : Option (Cache m)) : Option (Store m) :=
  if config.saveToFile then
    some (file files config.cachePath)
  else if config.enableCache then
    cache.map fun cache => keyValue cache config.cacheKey
  else
    none

def describe : Store m → String
  | keyValue _ key => "KeyValue \x7b key: " ++ Text.quote key ++ " \x7d"
  | file _ path => "File(" ++ Text.quote path ++ ")"

def tryLoad [Monad m] : Store m → m (Except RoutingError (Option DispatchSet))
  | keyValue cache key => do
      match ← cache.has key with
      | .error error => return .error error
      | .ok false => return .ok none
      | .ok true =>
          match ← cache.get key with
          | .error error => return .error error
          | .ok none => return .ok none
          | .ok (some blob) =>
              match DispatchSet.decode? blob with
              | some set => return .ok (some set)
              | none => return .error (.cache .malformedSnapshot)
  | file files path => do
      if ← files.isFile path then
        match ← files.read path with
        | none => return .error .inputOutput
        | some text =>
            match DispatchSet.parse? text with
            | some set => return .ok (some set)
            | none => return .error .serialization
      else
        return .ok none

def load [Monad m] (store : Store m) : m (Option DispatchSet) := do
  match ← store.tryLoad with
  | .ok set => return set
  | .error _ => return none

def trySave [Monad m] (set : DispatchSet) : Store m → m (Except RoutingError Unit)
  | keyValue cache key => cache.set key set.encode
  | file files path => do
      if ← files.write path set.print then return .ok () else return .error .inputOutput

def save [Monad m] (set : DispatchSet) (store : Store m) : m Unit := do
  let _ ← store.trySave set

end Store

end UrlRouting
