import UpgradeSafety.Failure
import UpgradeSafety.Layout.Json
import UpgradeSafety.Safety.Kind
import UpgradeSafety.Text.Lowercase

/-!
# Deployment records

What is recorded for one network: proxies, beacons, the admin of the proxies, and implementations by
the version of their bytecode. Addresses are compared without regard to letter case.
-/

namespace UpgradeSafety.Manifest

open Schema

/-- The recorded admin of proxies. -/
structure Admin where
  address : String
  txHash : Option String := none
  deriving DecidableEq, Repr

/-- A recorded proxy. -/
structure Proxy where
  address : String
  txHash : Option String := none
  kind : ProxyKind
  deriving DecidableEq, Repr

/-- A recorded beacon. -/
structure Beacon where
  address : String
  txHash : Option String := none
  abi : Option (List Json) := none

/-- A recorded implementation. -/
structure Implementation where
  address : String
  txHash : Option String := none
  layout : Layout
  abi : Option (List Json) := none
  /-- All addresses at which the version was deployed. -/
  allAddresses : Option (List String) := none
  allVersions : Option (List (String × Layout)) := none

/-- The format of manifests that is written. -/
def currentVersion : String := "3.3"

/-- Everything that is recorded for one network. -/
structure Records where
  manifestVersion : String := currentVersion
  admin : Option Admin := none
  proxies : List Proxy := []
  impls : List (String × Implementation) := []
  beacons : List (String × Beacon) := []

instance : Inhabited Records := ⟨{}⟩

/-! ## Addresses -/

/-- Whether two addresses are the same. -/
def sameAddress (a b : String) : Bool := Text.lower a == Text.lower b

/-- Whether an implementation is or was at an address. -/
def Implementation.hasAddress (i : Implementation) (address : String) : Bool :=
  sameAddress i.address address || (i.allAddresses.getD []).any (sameAddress · address)

/-- Appends the addresses that a list does not have yet. -/
def mergeAddresses (known fresh : List String) : List String :=
  fresh.foldl (fun as a => if as.any (sameAddress a) then as else as ++ [a]) known

/-! ## Changes and lookups -/

namespace Records

/-- Records a proxy in place of those at its address. -/
def addProxy (r : Records) (proxy : Proxy) : Records :=
  { r with proxies := r.proxies.filter (fun p => !sameAddress p.address proxy.address) ++ [proxy] }

/-- Removes the proxies at an address. -/
def removeProxy (r : Records) (address : String) : Records :=
  { r with proxies := r.proxies.filter fun p => !sameAddress p.address address }

/-- The proxy at an address. -/
def proxyAt? (r : Records) (address : String) : Option Proxy :=
  r.proxies.find? fun p => sameAddress p.address address

/-- The implementation of a version. -/
def deployment? (r : Records) (version : String) : Option Implementation := r.impls.lookup version

/-- Sets the implementation of a version. -/
def putDeployment (r : Records) (version : String) (i : Implementation) : Records :=
  { r with impls := putField version i r.impls }

/-- Removes the implementation of a version. -/
def dropDeployment (r : Records) (version : String) : Records :=
  { r with impls := dropField version r.impls }

/-- Records an implementation. A version that is deployed again at another address keeps all of its
addresses. -/
def addDeployment (r : Records) (version : String) (i : Implementation) : Records :=
  match r.deployment? version with
  | some known =>
    if sameAddress known.address i.address then r.putDeployment version i
    else
      let addresses := mergeAddresses (known.address :: known.allAddresses.getD [])
        (i.address :: i.allAddresses.getD [])
      r.putDeployment version { i with allAddresses := some addresses }
  | none => r.putDeployment version i

/-- The first implementation that is or was at an address. -/
def deploymentAt? (r : Records) (address : String) : Option Implementation :=
  (r.impls.map (·.2)).find? (·.hasAddress address)

/-- Sets or clears the admin. -/
def setAdmin (r : Records) (admin : Option Admin) : Records := { r with admin }

/-- Records a beacon under its address. -/
def addBeacon (r : Records) (beacon : Beacon) : Records :=
  { r with beacons := putField beacon.address beacon r.beacons }

/-- The first beacon at an address. -/
def beaconAt? (r : Records) (address : String) : Option Beacon :=
  (r.beacons.find? fun (key, _) => sameAddress key address).map (·.2)

end Records

/-! ## Writing -/

mutual

/-- A value of a contract's interface as it is written: floats that are no numbers are dropped. -/
def plainValue : Json → Json
  | .float x => if (Numeral.Binary64.ofFloat x).isFinite then .float x else .null
  | .arr items => .arr (plainValues items)
  | .obj fields => .obj (plainFields fields)
  | v => v

/-- The elements of a list as they are written. -/
def plainValues : List Json → List Json
  | [] => []
  | v :: rest => plainValue v :: plainValues rest

/-- The fields of an object as they are written. -/
def plainFields : List (String × Json) → List (String × Json)
  | [] => []
  | (k, v) :: rest => (k, plainValue v) :: plainFields rest

end

/-- The interface of a contract as it is written. -/
def abiJson (abi : List Json) : Json := .arr (plainValues abi)

/-- The fields that all records begin with. -/
def deploymentFields (address : String) (txHash : Option String) : Fields :=
  ("address", .str address) :: fieldIf "txHash" Json.str txHash

/-- The written form of an admin. -/
def Admin.toJson (a : Admin) : Json := .obj (deploymentFields a.address a.txHash)

/-- The written form of a proxy. -/
def Proxy.toJson (p : Proxy) : Json :=
  .obj (deploymentFields p.address p.txHash ++ [("kind", .str p.kind.name)])

/-- The written form of a beacon. -/
def Beacon.toJson (b : Beacon) : Json :=
  .obj (deploymentFields b.address b.txHash ++ fieldIf "abi" abiJson b.abi)

/-- The written form of an implementation. -/
def Implementation.toJson (i : Implementation) : Json :=
  .obj <|
    deploymentFields i.address i.txHash ++ [("layout", i.layout.toJson)] ++
    fieldIf "abi" abiJson i.abi ++
    fieldIf "allAddresses" (fun as => .arr (as.map .str)) i.allAddresses ++
    fieldIf "allVersions" (tableJson Layout.toJson) i.allVersions

/-- The written form of all records. -/
def Records.toJson (r : Records) : Json :=
  .obj <|
    [("manifestVersion", .str r.manifestVersion)] ++ fieldIf "admin" Admin.toJson r.admin ++
    [("proxies", .arr (r.proxies.map Proxy.toJson)),
      ("impls", tableJson Implementation.toJson r.impls),
      ("beacons", tableJson Beacon.toJson r.beacons)]

/-- Whether an implementation can be written. -/
def Implementation.isWritable (i : Implementation) : Bool :=
  i.layout.isWritable && (i.allVersions.getD []).all fun (_, l) => l.isWritable

/-- The written form of an implementation, if it exists. -/
def Implementation.encode (i : Implementation) : Except Failure Json :=
  written i.isWritable i.toJson

/-- Whether all records can be written. -/
def Records.isWritable (r : Records) : Bool := r.impls.all fun (_, i) => i.isWritable

/-- The written form of all records, if it exists. -/
def Records.encode (r : Records) : Except Failure Json := written r.isWritable r.toJson

/-! ## Reading -/

/-- The name of the field of a transaction. -/
def txHashName : Name := ⟨"txHash", "tx_hash"⟩

/-- Any value. -/
def anyValue (v : Json) : Checked Json := .valid v

/-- Reads an admin. -/
def Admin.ofJson : Json → Checked Admin :=
  record fun fields =>
    Admin.mk <$> required fields (.plain "address") text <*> optional fields txHashName text

/-- Reads a proxy. -/
def Proxy.ofJson : Json → Checked Proxy :=
  record fun fields =>
    Proxy.mk <$> required fields (.plain "address") text <*> optional fields txHashName text
      <*> required fields (.plain "kind") (oneOf ProxyKind.ofName?)

/-- Reads a beacon. -/
def Beacon.ofJson : Json → Checked Beacon :=
  record fun fields =>
    Beacon.mk <$> required fields (.plain "address") text <*> optional fields txHashName text
      <*> optional fields (.plain "abi") (list anyValue)

/-- Reads an implementation. -/
def Implementation.ofJson : Json → Checked Implementation :=
  record fun fields =>
    Implementation.mk <$> required fields (.plain "address") text
      <*> optional fields txHashName text
      <*> required fields (.plain "layout") Layout.ofJson
      <*> optional fields (.plain "abi") (list anyValue)
      <*> optional fields ⟨"allAddresses", "all_addresses"⟩ (list text)
      <*> optional fields ⟨"allVersions", "all_versions"⟩ (table Layout.ofJson)

/-- Reads all records. -/
def Records.ofJson : Json → Checked Records :=
  record fun fields =>
    Records.mk <$> defaulted fields ⟨"manifestVersion", "manifest_version"⟩ text currentVersion
      <*> optional fields (.plain "admin") Admin.ofJson
      <*> defaulted fields (.plain "proxies") (list Proxy.ofJson) []
      <*> defaulted fields (.plain "impls") (table Implementation.ofJson) []
      <*> defaulted fields (.plain "beacons") (table Beacon.ofJson) []

end UpgradeSafety.Manifest
