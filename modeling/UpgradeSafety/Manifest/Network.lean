/-!
# Networks

A network is known by its chain id. The manifests of well-known networks are named after them.
-/

namespace UpgradeSafety.Manifest

/-- The well-known networks by chain id. -/
def networks : List (Int × String) :=
  [(1, "mainnet"), (5, "goerli"), (10, "optimism"), (56, "bsc"), (97, "bsc-testnet"),
    (100, "gnosis"), (137, "polygon"), (250, "fantom"), (324, "zksync"), (1284, "moonbeam"),
    (8453, "base"), (42161, "arbitrum-one"), (42220, "celo"), (43113, "avalanche-fuji"),
    (43114, "avalanche"), (59144, "linea"), (80001, "polygon-mumbai"), (84532, "base-sepolia"),
    (421614, "arbitrum-sepolia"), (534352, "scroll"), (11155111, "sepolia"),
    (11155420, "optimism-sepolia")]

/-- The name of a well-known network. -/
def networkName? (chainId : Int) : Option String := networks.lookup chainId

/-- The name that any network can have. -/
def numberedName (chainId : Int) : String := "unknown-" ++ toString chainId

/-- The name of a network. -/
def networkName (chainId : Int) : String := (networkName? chainId).getD (numberedName chainId)

end UpgradeSafety.Manifest
