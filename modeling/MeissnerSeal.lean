import MeissnerSeal.Transfer.Network
import MeissnerSeal.Vault.NoLostUpdate
import MeissnerSeal.Vault.CreateUnlock
import MeissnerSeal.Vault.FrameBinding
import MeissnerSeal.Vault.ForeignFile
import MeissnerSeal.Vault.Erasure
import MeissnerSeal.Export.BundleIntegrity
import MeissnerSeal.Export.Interrupted
import MeissnerSeal.Vault.Confined
import MeissnerSeal.Vault.FrameValidity
import MeissnerSeal.Vault.FrameCodec
import MeissnerSeal.Vault.Bounds
import MeissnerSeal.Vault.Layout
import MeissnerSeal.Vault.OpenSession
import MeissnerSeal.Vault.TableGrowth
import MeissnerSeal.Vault.CreateRace
import MeissnerSeal.Vault.HeaderCanonical
import MeissnerSeal.Vault.Provenance
import MeissnerSeal.Vault.CrashSafety
import MeissnerSeal.Keys.KeyFileIntegrity
import MeissnerSeal.Keys.IdentityText
import MeissnerSeal.Keys.DeviceCodec
import MeissnerSeal.Keys.Pairing
import MeissnerSeal.Keys.Trust
import MeissnerSeal.Crypto.KeyInfo
import MeissnerSeal.Cli.AtMostOnce
import MeissnerSeal.Cli.ItemId
import MeissnerSeal.Cli.Listing
import MeissnerSeal.Cli.Commands
import MeissnerSeal.Cli.Desk
import MeissnerSeal.Cli.Perform
import MeissnerSeal.Cli.DeskFiles
import MeissnerSeal.Cli.DeskRefinement
import MeissnerSeal.Cli.DeskRuns
import MeissnerSeal.Cli.Output
import MeissnerSeal.Cli.DeskSecrecy
import MeissnerSeal.Cli.DeskRemains
import MeissnerSeal.Cli.DeskFailures
import MeissnerSeal.Cli.Confined
import MeissnerSeal.Cli.FailingRuns
import MeissnerSeal.Cli.Devices
import MeissnerSeal.Cli.PairedDevices
