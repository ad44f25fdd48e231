import Pyrax.Types.Block

/-!
# Block rewards and the genesis blocks

`consensus/streams.rs` (the reward of each stream) and `genesis/mod.rs` (the
canonical first block of each network). Every network's genesis block holds one
coinbase transaction whose outputs are the pre-allocation: the devnet's faucet
and three test wallets, the testnet's faucet, and on the mainnet a single output
worth nothing. A network the source does not name gets the devnet's parameters
and the mainnet's outputs.
-/

namespace Pyrax

/-- The three streams of the protocol. -/
inductive Stream where
  | A
  | B
  | C
  deriving DecidableEq

/-- Base units in one PYRAX. -/
def decimals : UInt64 := 100000000

def Stream.blockReward : Stream → UInt64
  | .A => 50 * decimals
  | .B => 100 * decimals
  | .C => 10 * decimals

namespace Genesis

def MAINNET_TIMESTAMP : UInt64 := 1735689600
def TESTNET_TIMESTAMP : UInt64 := 1735689600
def DEVNET_TIMESTAMP : UInt64 := 1735689600

def MAINNET_DIFFICULTY : UInt64 := 1000000
def TESTNET_DIFFICULTY : UInt64 := 1000
def DEVNET_DIFFICULTY : UInt64 := 1

/-- `b"PYRAX Genesis - TriStream DAG Blockchain"`. -/
def MAINNET_EXTRA_DATA : List UInt8 :=
  [0x50, 0x59, 0x52, 0x41, 0x58, 0x20, 0x47, 0x65, 0x6e, 0x65, 0x73, 0x69, 0x73, 0x20, 0x2d,
   0x20, 0x54, 0x72, 0x69, 0x53, 0x74, 0x72, 0x65, 0x61, 0x6d, 0x20, 0x44, 0x41, 0x47, 0x20,
   0x42, 0x6c, 0x6f, 0x63, 0x6b, 0x63, 0x68, 0x61, 0x69, 0x6e]

/-- `b"PYRAX Testnet Genesis"`. -/
def TESTNET_EXTRA_DATA : List UInt8 :=
  [0x50, 0x59, 0x52, 0x41, 0x58, 0x20, 0x54, 0x65, 0x73, 0x74, 0x6e, 0x65, 0x74, 0x20, 0x47,
   0x65, 0x6e, 0x65, 0x73, 0x69, 0x73]

/-- `b"PYRAX Devnet Genesis"`. -/
def DEVNET_EXTRA_DATA : List UInt8 :=
  [0x50, 0x59, 0x52, 0x41, 0x58, 0x20, 0x44, 0x65, 0x76, 0x6e, 0x65, 0x74, 0x20, 0x47, 0x65,
   0x6e, 0x65, 0x73, 0x69, 0x73]

def DEVNET_FAUCET_ALLOCATION : UInt64 := 1000000000 * decimals
def DEVNET_TEST_WALLET_ALLOCATION : UInt64 := 10000000 * decimals

/-- An address of twenty equal bytes, as the well-known ones are. -/
def repeatedAddress (b : UInt8) : Address := ⟨Vector.replicate 20 b⟩

def DEVNET_FAUCET_ADDRESS : Address := repeatedAddress 0x11
def DEVNET_TEST_WALLET_1 : Address := repeatedAddress 0x22
def DEVNET_TEST_WALLET_2 : Address := repeatedAddress 0x33
def DEVNET_TEST_WALLET_3 : Address := repeatedAddress 0x44

def devnetGenesisOutputs : List TxOutput :=
  [TxOutput.p2pkh DEVNET_FAUCET_ALLOCATION DEVNET_FAUCET_ADDRESS,
   TxOutput.p2pkh DEVNET_TEST_WALLET_ALLOCATION DEVNET_TEST_WALLET_1,
   TxOutput.p2pkh DEVNET_TEST_WALLET_ALLOCATION DEVNET_TEST_WALLET_2,
   TxOutput.p2pkh DEVNET_TEST_WALLET_ALLOCATION DEVNET_TEST_WALLET_3]

def testnetGenesisOutputs : List TxOutput :=
  [TxOutput.p2pkh (5000000000 * decimals) DEVNET_FAUCET_ADDRESS]

def mainnetGenesisOutputs : List TxOutput := [⟨0, []⟩]

/-- Timestamp, difficulty and coinbase text of a network. -/
def genesisParams (network : NetworkId) : UInt64 × UInt64 × List UInt8 :=
  if network = NetworkId.MAINNET then
    (MAINNET_TIMESTAMP, MAINNET_DIFFICULTY, MAINNET_EXTRA_DATA)
  else if network = NetworkId.TESTNET then
    (TESTNET_TIMESTAMP, TESTNET_DIFFICULTY, TESTNET_EXTRA_DATA)
  else (DEVNET_TIMESTAMP, DEVNET_DIFFICULTY, DEVNET_EXTRA_DATA)

def genesisOutputs (network : NetworkId) : List TxOutput :=
  if network = NetworkId.DEVNET then devnetGenesisOutputs
  else if network = NetworkId.TESTNET then testnetGenesisOutputs
  else mainnetGenesisOutputs

/-- The genesis coinbase, which carries the pre-allocated outputs. -/
def coinbaseTx (network : NetworkId) : Transaction :=
  ⟨1, [⟨OutPoint.coinbase, (genesisParams network).2.2, 0xFFFFFFFF⟩], genesisOutputs network, 0⟩

def genesisBlock (C : Crypto) (network : NetworkId) : Block where
  header :=
    { version := 1
      stream := 0
      parentHash := H256.zero
      merkleRoot := (coinbaseTx network).txid C
      utxoCommitment := H256.zero
      timestamp := (genesisParams network).1
      difficulty := (genesisParams network).2.1
      nonce := 0
      extraNonce := 0
      height := 0
      beneficiary := Address.ZERO }
  transactions := [coinbaseTx network]

/-- The pre-allocation has at most four outputs. -/
theorem genesisOutputs_length_le (network : NetworkId) : (genesisOutputs network).length ≤ 4 := by
  unfold genesisOutputs
  split
  · exact Nat.le_refl 4
  · split
    · decide
    · decide

end Genesis

end Pyrax
