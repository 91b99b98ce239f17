import SmcPkg.Lib.CString
import SmcPkg.RaidOob.CmdParse
import SmcPkg.RaidOob.CmdGrammar
import SmcPkg.RaidOob.CmdLine
import SmcPkg.RaidOob.CmdRoundTrip
import SmcPkg.RaidOob.CmdStrictness
import SmcPkg.Lib.Stores
import SmcPkg.RaidOob.CmdWrites
import SmcPkg.Lib.Buckets
import SmcPkg.RaidOob.VarTable
import SmcPkg.RaidOob.VarTableRuns
import SmcPkg.RaidOob.Card
import SmcPkg.RaidOob.CmdExamine
import SmcPkg.Lib.Traced
import SmcPkg.RaidOob.CmdTables
import SmcPkg.RaidOob.CmdExecute
import SmcPkg.RaidOob.CmdBuildRun
import SmcPkg.RaidOob.CmdBuildLaw
import SmcPkg.Lib.Folds
import SmcPkg.RaidOob.ApplyData
import SmcPkg.RaidOob.ApplyLaw
import SmcPkg.RaidOob.BrowserHook
import SmcPkg.RaidOob.Session
import SmcPkg.RaidOob.SessionHook
import SmcPkg.RaidOob.SessionLaw
import SmcPkg.RaidOob.SetupVars
import SmcPkg.RaidOob.SetupLaw
import SmcPkg.RaidOob.SetupRoutes
import SmcPkg.Lib.Bytes
import SmcPkg.Lib.Nesting
import SmcPkg.Lib.Precedence
import SmcPkg.RaidOob.IfrPackage
import SmcPkg.RaidOob.IfrPackageLaw
import SmcPkg.RaidOob.ItemsBuffer
import SmcPkg.RaidOob.SetupForms
import SmcPkg.RaidOob.SetupFormsDepth
import SmcPkg.RaidOob.SetupFormsLaw
import SmcPkg.Lib.Walks
import SmcPkg.RaidOob.PackageWalk
import SmcPkg.RaidOob.PackageWalkLaw
import SmcPkg.RomHole
import SmcPkg.OutBand.Download
import SmcPkg.OutBand.DownloadLaw
import SmcPkg.OutBand.DownloadStore
import SmcPkg.OutBand.DownloadClose
import SmcPkg.OutBand.StorageBoots
import SmcPkg.OutBand.Upload
import SmcPkg.OutBand.UploadLaw
import SmcPkg.OutBand.BmcWindow
import SmcPkg.InBand.BiosCfg
import SmcPkg.InBand.BiosCfgRoundTrip
import SmcPkg.InBand.VarUpdate
import SmcPkg.InBand.VarUpdateLaw
import SmcPkg.InBand.Smi
import SmcPkg.InBand.SmiLaw
import SmcPkg.InBand.BiosCfgBoot
import SmcPkg.InBand.BiosCfgBootRuns
import SmcPkg.InBand.Smbios
import SmcPkg.InBand.SmbiosLaw
import SmcPkg.InBand.DmiNvram
import SmcPkg.InBand.DmiNvramLaw
import SmcPkg.InBand.SmbiosUpdateLaw
import SmcPkg.InBand.ExpStack
import SmcPkg.InBand.ExpStackLaw
import SmcPkg.SmBios.Preserve
import SmcPkg.SmBios.PreserveLaw
import SmcPkg.SmBios.PreserveRoundTrip
import SmcPkg.SmBios.PreserveRuns
import SmcPkg.Lib.Descent
import SmcPkg.InBand.FormLayout
import SmcPkg.InBand.FormLayoutCalls
import SmcPkg.Lib.Feistel
import SmcPkg.InBand.Blowfish
import SmcPkg.InBand.BlowfishCalls
import SmcPkg.InBand.HiiImage
import SmcPkg.TpmProvision
import SmcPkg.RomHoleWrite
import SmcPkg.OemActivation
import SmcPkg.Lib.Slots
import SmcPkg.SetupModify
import SmcPkg.InBand.OpFlags
import SmcPkg.InBand.OpFlagsLaw
import SmcPkg.InBand.ExpValue
import SmcPkg.Lib.BitFields
import SmcPkg.Aoc.Masks
import SmcPkg.Aoc.MasksLaw
import SmcPkg.Aoc.Bifurcation
import SmcPkg.Lib.Locality
import SmcPkg.Aoc.BifurcationLaw
import SmcPkg.Aoc.BifurcationLocal
import SmcPkg.InBand.SmiStage
import SmcPkg.InBand.Smram
import SmcPkg.InBand.SmramLaw
import SmcPkg.RaidOob.NvRounds
import SmcPkg.RaidOob.Collect
import SmcPkg.InBand.VariableScan
import SmcPkg.RaidOob.VarStores
import SmcPkg.RaidOob.SetupUpdate
import SmcPkg.RaidOob.DriveItemsLaw
import SmcPkg.CmosTokens
import SmcPkg.Cltt
import SmcPkg.BmcLanConfig
import SmcPkg.VpdMac
import SmcPkg.SwSmi
import SmcPkg.Aoc.RiserCard
import SmcPkg.Aoc.BifurcationVpp
import SmcPkg.OutBand.FeatureFlags
import SmcPkg.OutBand.DownloadBounds
import SmcPkg.InBand.SmbiosString
import SmcPkg.SmBios.ReplaceString
import SmcPkg.SmBios.UpdateWalk
import SmcPkg.SmBios.UpdateWalkLaw
import SmcPkg.SmBios.Buffer
import SmcPkg.SmBios.PowerSupply
import SmcPkg.SmBios.PowerSupplyLaw
import SmcPkg.SmBios.SmcVpd
import SmcPkg.SmBios.SmcVpdLaw
import SmcPkg.RaidOob.SupGrayLaw
import SmcPkg.TpmStorageLaw
import SmcPkg.Lib.BitRows
import SmcPkg.Lib.Cells
import SmcPkg.Lib.PrefixCode
import SmcPkg.Compress.PutBits
import SmcPkg.Compress.FillBuf
import SmcPkg.Compress.BitRoundTrip
import SmcPkg.Compress.MakeTree
import SmcPkg.Compress.MakeTreeLaw
import SmcPkg.Compress.MakeLenLaw
import SmcPkg.Compress.MakeCodeLaw
import SmcPkg.Compress.MakeTable
import SmcPkg.Compress.MakeTableLaw
import SmcPkg.Compress.LookupLaw
import SmcPkg.Compress.SendBlock
import SmcPkg.Compress.Decode
import SmcPkg.Compress.PTLenLaw
import SmcPkg.Compress.CLenLaw
import SmcPkg.Compress.ItemLaw
import SmcPkg.Compress.DecodeLaw
import SmcPkg.Compress.BufferLaw
import SmcPkg.Compress.BlockLaw
import SmcPkg.Compress.OutputLaw
import SmcPkg.Compress.RoundTrip
