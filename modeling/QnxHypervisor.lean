import QnxHypervisor.MotorController.Watch
import QnxHypervisor.CommandLink.Numbering
import QnxHypervisor.ShmReader.Restart
import QnxHypervisor.ShmReader.RegionInit
import QnxHypervisor.CommandLink.Agreement
import QnxHypervisor.MotorShm.Torn
import QnxHypervisor.GuestShell.Announced
import QnxHypervisor.GuestShell.IdleMonitor
import QnxHypervisor.GuestShell.Inherited
import QnxHypervisor.GuestShell.Output
import QnxHypervisor.GuestManager.KillTarget
import QnxHypervisor.GuestManager.Naming
import QnxHypervisor.OtaUpdate.RestartPolicy
import QnxHypervisor.OtaUpdate.Containment
import QnxHypervisor.MotorWire.Burst
import QnxHypervisor.MotorController.Transmission
import QnxHypervisor.MotorController.SequenceAccounting
import QnxHypervisor.MotorController.DataReadyPin
import QnxHypervisor.MotorController.ConfigExact
import QnxHypervisor.MotorController.SpiConfAgreement
import QnxHypervisor.MotorController.SpiConfFrame
import QnxHypervisor.MotorAi.CsvFiles
import QnxHypervisor.OtaUpdate.Unpacked
import QnxHypervisor.OtaUpdate.Integrity
import QnxHypervisor.MotorRecorder.AutoStop
import QnxHypervisor.MotorRecorder.StopFigures
import QnxHypervisor.MotorRecorder.Finalised
import QnxHypervisor.MotorRecorder.RowAccounts
import QnxHypervisor.MotorRecorder.CsvWriter
import QnxHypervisor.MotorRecorder.Download
import QnxHypervisor.MotorRecorder.FileList
import QnxHypervisor.MotorRecorder.StatusNames
import QnxHypervisor.FrameRouter.Tearing
import QnxHypervisor.FrameRouter.LastFrame
import QnxHypervisor.WifiService.Entered
import QnxHypervisor.WifiService.Credentials
import QnxHypervisor.GuestManager.StartIp
import QnxHypervisor.HmsStatus.GuestInfo
import QnxHypervisor.HmsStatus.EscapeBuffer
import QnxHypervisor.SshClient.OutputTail
import QnxHypervisor.GuestManager.BootImage
import QnxHypervisor.HmsStatus.GuestFiles
import QnxHypervisor.OtaUpdate.FetchRequest
import QnxHypervisor.OtaUpdate.AddedFile
import QnxHypervisor.OtaUpdate.NewGuest
import QnxHypervisor.OtaUpdate.ExitCodes
import QnxHypervisor.MotorRecorder.RowQueue
import QnxHypervisor.ShmSender.Chunker
import QnxHypervisor.SshClient.CapturedOutput
import QnxHypervisor.MotorRecorder.StartCommand
import QnxHypervisor.MotorRecorder.Upload
import QnxHypervisor.FrameRouter.FrameBuffers
import QnxHypervisor.WifiService.CredentialLine
import QnxHypervisor.MotorController.SpiSlots
import QnxHypervisor.MotorController.SpiDescriptors
import QnxHypervisor.MotorPath.Monitor
import QnxHypervisor.MotorPath.Watched
import QnxHypervisor.MotorPath.Recording
import QnxHypervisor.GpioServer.EventAccounts
import QnxHypervisor.GpioServer.ServerBoard
import QnxHypervisor.GpioServer.PwmSlots
import QnxHypervisor.GpioServer.Isolation
import QnxHypervisor.GpioServer.ClientCalls
import QnxHypervisor.GpioServer.PulseSchedule
import QnxHypervisor.BootMemory.StartupRuns
