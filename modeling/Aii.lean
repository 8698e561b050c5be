import Aii.Bft.Agreement
import Aii.Bft.BlockSync
import Aii.Bft.CoordinatorRuns
import Aii.Bft.LockKept
import Aii.Bft.StagedTxs
import Aii.Chain.Canonical
import Aii.Chain.EthereumBytes
import Aii.Chain.SigningScope
import Aii.Chain.Ssz
import Aii.Chain.TrieTotal
import Aii.Cross.Federation
import Aii.Net.Discovery
import Aii.Net.HeaderSync
import Aii.Net.Kademlia
import Aii.Net.Message
import Aii.Net.TxPoolRuns
import Aii.Node.ColdJoin
import Aii.Node.Conservation
import Aii.Node.ElectionSpec
import Aii.Node.FlushAnchors
import Aii.Node.GovernanceSupport
import Aii.Node.HeaderRoots
import Aii.Node.LogExact
import Aii.Node.PrefixScan
import Aii.Node.Replay
import Aii.Node.Restart
import Aii.Node.Rotation
import Aii.Node.SlashOnce
import Aii.Node.Supply
import Aii.Node.Transfer
import Aii.Node.WriteBack
import Aii.Release.BootHealth
import Aii.Release.Idempotence
import Aii.Release.StoreRace
import Aii.Wallet.Keystore
import Aii.Wasm.Effects
