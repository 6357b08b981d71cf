import TiOpenCL.CommandQueue.Barriers
import TiOpenCL.CommandQueue.Finish
import TiOpenCL.CommandQueue.Propagation
import TiOpenCL.Devices.CoreScheduler
import TiOpenCL.Devices.SubDevices
import TiOpenCL.Edma.Cleanup
import TiOpenCL.Edma.Strides
import TiOpenCL.Events.Callbacks
import TiOpenCL.HeapManager.Collection
import TiOpenCL.HeapManager.Searches
import TiOpenCL.KernelArgs.LocalMemory
import TiOpenCL.KernelArgs.Passing
import TiOpenCL.KernelArgs.SetArg
import TiOpenCL.Kernels.Launch
import TiOpenCL.Kernels.Releases
import TiOpenCL.Kernels.WorkGroupSize
import TiOpenCL.Loader.ExactlyOnce
import TiOpenCL.Loader.FieldRoundTrip
import TiOpenCL.Loader.Symbols
import TiOpenCL.Monitor.GroupIds
import TiOpenCL.Mpax.AllOrNothing
import TiOpenCL.Objects.Lifetimes
import TiOpenCL.Protocol.Completion
import TiOpenCL.Protocol.Scheduling
import TiOpenCL.SharedMemory.Cmem
import TiOpenCL.SharedMemory.Queries
import TiOpenCL.Transfers.HostCopies
import TiOpenCL.Transfers.MapEvents
import TiOpenCL.Transfers.Overlap
import TiOpenCL.Transfers.Windows
import TiOpenCL.Workers.Handshake
