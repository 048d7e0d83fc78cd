import WallyScript.Basic
import WallyScript.Varint
import WallyScript.Confidential
import WallyScript.ScriptInt
import WallyScript.Push
import WallyScript.Classify
import WallyScript.Builders
import WallyScript.SortedMultisig
import WallyScript.Agreement
import WallyScript.ScriptSig
import WallyScript.Witness
import WallyScript.Pegout
import WallyScript.Sizing
import WallyScript.Pegin
import WallyScript.PeginRewrite
import WallyScript.PegScripts
